import Lineage.Hierarchy.Lookup
import Lineage.Proofs.Caching
import Lineage.Proofs.Refinement

/-!
# The cache agrees with the store

A lookup that misses the cache takes three steps: it notes the number of changes, reads a view, and
keeps it. Other operations may come between any two of them, and between the two halves of the last
one, which puts the view into the cache and drops it again if there was a change since the note.

* `World`, `Event`: a hierarchy with any number of lookups at some step, and what may happen next.
* `Coherent`: every cached view is the one that the store gives, or a lookup that put it there is
  about to drop it. Every event keeps this (`Coherent.step`).
* `World.run_coherent`: while no lookup is between those halves, a lookup answers what the store
  does. Of a locked store, which answers nothing, it shows the views that are still cached.
-/

open Relation

namespace Lineage

variable {k : Kind}

/-! ## Events -/

/-- What a lookup goes by. -/
inductive Key (k : Kind)
  | byId (id : NodeId k)
  | byCode (code : String)

/-- The lookup in the store. -/
def Key.work : Key k → Work k (NodeView k)
  | .byId id => Work.viewById id
  | .byCode code => Work.viewByCode code

/-- Whether a view has the id or the code. -/
def Key.Names : Key k → NodeView k → Prop
  | .byId id, v => v.node.id = id
  | .byCode code, v => v.node.code = code

/-- How far a lookup has come. -/
inductive Stage (k : Kind)
  | begun
  | read (view : NodeView k)
  /-- The view is in the cache and may have to be dropped. -/
  | put (view : NodeView k)

/-- A lookup that did not find its node in the cache. -/
structure Lookup (k : Kind) where
  /-- The number of changes that was noted. -/
  seen : UInt64
  stage : Stage k := .begun
  /-- The number of changes that were committed since. -/
  since : Nat := 0

/-- A hierarchy and the lookups that are under way. -/
structure World (k : Kind) where
  hierarchy : Hierarchy k
  pending : List (Lookup k) := []

/-- What happens next. A lookup is named by its place among those under way. -/
inductive Event (k : Kind)
  | serve (env : Surroundings k) (op : Operation k)
  /-- A lookup from beginning to end. -/
  | find (key : Key k)
  /-- A cache in memory loses the entries of some ids and some codes. -/
  | lose (ids : NodeId k → Bool) (codes : String → Bool)
  /-- The texts under some keys on a server come to the end of their life. -/
  | expire (keys : String → Bool)
  | begin
  | read (i : Nat) (key : Key k)
  /-- The first half of keeping a view. -/
  | put (i : Nat)
  /-- The second half. -/
  | recheck (i : Nat)
  /-- Both halves at once. -/
  | fill (i : Nat)

namespace Hierarchy

/-- A lookup from beginning to end. -/
def find (h : Hierarchy k) : Key k → Except (HierarchyError k) (NodeView k) × Hierarchy k
  | .byId id => h.findById id
  | .byCode code => h.findByCode code

/-- What the cache answers to a lookup. -/
def hit (h : Hierarchy k) : Key k → Except CacheError (Option (NodeView k))
  | .byId id => h.cached id
  | .byCode code => h.cachedByCode code

theorem find_eq_readThrough (h : Hierarchy k) (key : Key k) :
    h.find key = h.readThrough (h.hit key) key.work := by
  cases key <;> rfl

end Hierarchy

namespace World

/-- The lookups under way after an operation: a change counts for all of them. -/
def aged (before after : UInt64) (pending : List (Lookup k)) : List (Lookup k) :=
  if after = before then pending else pending.map fun l => { l with since := l.since + 1 }

/-- What is after an event. -/
def step (w : World k) : Event k → World k
  | .serve env op =>
    let h := (w.hierarchy.serve env op).2
    ⟨h, aged w.hierarchy.writes h.writes w.pending⟩
  | .find key => { w with hierarchy := (w.hierarchy.find key).2 }
  | .lose ids codes => { w with hierarchy := w.hierarchy.lose ids codes }
  | .expire keys => { w with hierarchy := w.hierarchy.expire keys }
  | .begin => { w with pending := { seen := w.hierarchy.writes } :: w.pending }
  | .read i key =>
    match w.pending[i]? with
    | some ⟨seen, .begun, since⟩ =>
      match w.hierarchy.look key.work with
      | .ok v => { w with pending := w.pending.set i ⟨seen, .read v, since⟩ }
      | .error _ => { w with pending := w.pending.eraseIdx i }
    | _ => w
  | .put i =>
    match w.pending[i]? with
    | some ⟨seen, .read v, since⟩ => ⟨w.hierarchy.keep v, w.pending.set i ⟨seen, .put v, since⟩⟩
    | _ => w
  | .recheck i =>
    match w.pending[i]? with
    | some ⟨seen, .put v, _⟩ => ⟨w.hierarchy.recheck v seen, w.pending.eraseIdx i⟩
    | _ => w
  | .fill i =>
    match w.pending[i]? with
    | some ⟨seen, .read v, _⟩ => ⟨w.hierarchy.fill v seen, w.pending.eraseIdx i⟩
    | _ => w

/-- What is after events. -/
def run (w : World k) (events : List (Event k)) : World k := events.foldl step w

end World

/-! ## The invariant -/

/-- The view of an active node, as the records and the rows of the contents have it. -/
def Contents.Current (s : Contents k) (v : NodeView k) : Prop :=
  s.active.get? v.node.id = some v.node ∧
    (v.hasDescendant = true ↔ ∃ y, Closure.Edge s.rows v.node.id y)

theorem Contents.Holds.current_iff {s : Contents k} {g : Dag k} (h : s.Holds g)
    {v : NodeView k} : s.Current v ↔ g.Shows v := by
  simp only [Current, Dag.Shows, h.active, h.edge_iff]

/-- The view that a lookup has read. -/
def Stage.view? : Stage k → Option (NodeView k)
  | .begun => none
  | .read v | .put v => some v

/-- Whether a lookup has put a view of a node into the cache and will look again. -/
def Lookup.Puts (l : Lookup k) (id : NodeId k) : Prop := ∃ v, l.stage = .put v ∧ v.node.id = id

/-- Every cached view is the one that the store gives of its node, or is about to be dropped by a
lookup that put a view of the node there after a change. A view that was read is the store's as long
as there was no change. Views with a property are given back by the cache as they are; those that
are under way have it. -/
structure Coherent (P : NodeView k → Prop) (w : World k) (g : Dag k) : Prop where
  refusal : w.hierarchy.store.refusal = none
  contents : w.hierarchy.store.contents.Holds g
  rival : w.hierarchy.rival = none
  givesBack : ∀ v, P v → w.hierarchy.cache.GivesBack v
  counted : ∀ l ∈ w.pending, w.hierarchy.writes = l.seen + UInt64.ofNat l.since
  current : ∀ l ∈ w.pending, ∀ v, l.stage.view? = some v → P v ∧ (l.since = 0 → g.Shows v)
  cached : ∀ id v, w.hierarchy.kept id = some v →
    v.node.id = id ∧ (g.Shows v ∨ ∃ l ∈ w.pending, l.Puts id ∧ l.since ≠ 0)

section Places

variable {α : Type} {xs : List α} {i : Nat} {a b x : α}

theorem mem_set_of_ne (ha : xs[i]? = some a) (hx : x ∈ xs) (hne : x ≠ a) : x ∈ xs.set i b := by
  obtain ⟨j, hj⟩ := List.mem_iff_getElem?.1 hx
  have hij : i ≠ j := by
    rintro rfl
    exact hne (Option.some.inj (hj.symm.trans ha))
  exact List.mem_iff_getElem?.2 ⟨j, by rw [List.getElem?_set_ne hij, hj]⟩

theorem mem_eraseIdx_of_ne (ha : xs[i]? = some a) (hx : x ∈ xs) (hne : x ≠ a) :
    x ∈ xs.eraseIdx i := by
  obtain ⟨j, hj⟩ := List.mem_iff_getElem?.1 hx
  refine List.mem_eraseIdx_iff_getElem?.2 ⟨j, ?_, hj⟩
  rintro rfl
  exact hne (Option.some.inj (hj.symm.trans ha))

end Places

namespace Coherent

variable {P : NodeView k → Prop} {w : World k} {g : Dag k} {h : Hierarchy k}

/-- Nothing is lost when the cache loses entries. -/
theorem thins (hw : Coherent P w g) (hh : w.hierarchy.Thins h) : Coherent P ⟨h, w.pending⟩ g where
  refusal := hh.refusal.trans hw.refusal
  contents := by rw [hh.contents]; exact hw.contents
  rival := hh.rival.trans hw.rival
  givesBack v hv := (hh.givesBack v).2 (hw.givesBack v hv)
  counted l hl := hh.writes.trans (hw.counted l hl)
  current := hw.current
  cached id v hv := hw.cached id v (hh.kept id v hv)

/-- A view may be put into the cache that the store gives or that a lookup is about to drop. -/
theorem keep (hw : Coherent P w g) {v : NodeView k} (hback : P v)
    (hv : g.Shows v ∨ ∃ l ∈ w.pending, l.Puts v.node.id ∧ l.since ≠ 0) :
    Coherent P { w with hierarchy := w.hierarchy.keep v } g where
  refusal := by rw [Hierarchy.keep_store]; exact hw.refusal
  contents := by rw [Hierarchy.keep_store]; exact hw.contents
  rival := by rw [Hierarchy.keep_rival]; exact hw.rival
  givesBack v' hv' := Hierarchy.givesBack_keep.2 (hw.givesBack v' hv')
  counted := by rw [Hierarchy.keep_writes]; exact hw.counted
  current := hw.current
  cached id v' hk := by
    rcases Hierarchy.kept_keep (hw.givesBack v hback) hk with ⟨rfl, rfl⟩ | hk
    · exact ⟨rfl, hv⟩
    · exact hw.cached id v' hk

/-- Lookups may come, go and move on, as long as no cached view waits to be dropped by one that
went. -/
theorem relist (hw : Coherent P w g) {pending : List (Lookup k)}
    (hnew : ∀ l ∈ pending, l ∈ w.pending ∨
      w.hierarchy.writes = l.seen + UInt64.ofNat l.since ∧
        ∀ v, l.stage.view? = some v → P v ∧ (l.since = 0 → g.Shows v))
    (hleft : ∀ l ∈ w.pending, ∀ id v, w.hierarchy.kept id = some v → l.Puts id → l.since ≠ 0 →
      l ∈ pending) :
    Coherent P { w with pending } g where
  refusal := hw.refusal
  contents := hw.contents
  rival := hw.rival
  givesBack := hw.givesBack
  counted l hl := (hnew l hl).elim (hw.counted l) And.left
  current l hl := (hnew l hl).elim (hw.current l) And.right
  cached id v hv := by
    obtain ⟨hid, hshows | ⟨l, hl, hputs, hsince⟩⟩ := hw.cached id v hv
    · exact ⟨hid, .inl hshows⟩
    · exact ⟨hid, .inr ⟨l, hleft l hl id v hv hputs hsince, hputs, hsince⟩⟩

/-! ## Reads -/

section Open

variable (hw : Coherent P w g) (hopen : w.hierarchy.store.locked = false)

include hw hopen

theorem look_byId (id : NodeId k) :
    (g.active.get? id = none ∧
        w.hierarchy.look (Work.viewById id) = .error (.notFound (.node id))) ∨
      ∃ v, v.node.id = id ∧ g.Shows v ∧ w.hierarchy.look (Work.viewById id) = .ok v := by
  rw [Hierarchy.look, Hierarchy.run_eq ⟨hw.refusal, hopen, hw.contents⟩]
  rcases Work.viewById_apply hw.refusal hw.contents id with ⟨hnone, he⟩ | ⟨v, hid, hs, he⟩
  · exact .inl ⟨hnone, by rw [he]; rfl⟩
  · exact .inr ⟨v, hid, hs, by rw [he]; rfl⟩

theorem look_byId_iff {id : NodeId k} {v : NodeView k} :
    w.hierarchy.look (Work.viewById id) = .ok v ↔ v.node.id = id ∧ g.Shows v := by
  rcases hw.look_byId hopen id with ⟨hnone, he⟩ | ⟨v', hid, hs, he⟩
  · rw [he]
    refine ⟨fun e => (nomatch e), ?_⟩
    rintro ⟨rfl, hs⟩
    exact absurd (hnone.symm.trans hs.1) (Option.some_ne_none _).symm
  · rw [he, Except.ok.injEq]
    exact ⟨fun e => e ▸ ⟨hid, hs⟩, fun ⟨hid', hs'⟩ => hs.ext hs' (hid.trans hid'.symm)⟩

theorem look_byCode (code : String) :
    ((∀ v, g.Shows v → v.node.code ≠ code) ∧
        w.hierarchy.look (Work.viewByCode code) = .error (.notFound (.code code))) ∨
      ∃ v, v.node.code = code ∧ g.Shows v ∧ w.hierarchy.look (Work.viewByCode code) = .ok v := by
  rw [Hierarchy.look, Hierarchy.run_eq ⟨hw.refusal, hopen, hw.contents⟩]
  rcases Work.viewByCode_apply hw.refusal hw.contents code with ⟨hnone, he⟩ | ⟨v, hfound, hs, he⟩
  · refine .inl ⟨fun v hs hcode => ?_, by rw [he]; rfl⟩
    have := List.find?_eq_none.1 hnone v.node (Table.mem_values.2 ⟨_, hs.1⟩)
    simp [hcode] at this
  · exact .inr ⟨v, by simpa using List.find?_some hfound, hs, by rw [he]; rfl⟩

theorem look_byCode_iff {code : String} {v : NodeView k} :
    w.hierarchy.look (Work.viewByCode code) = .ok v ↔ v.node.code = code ∧ g.Shows v := by
  rcases hw.look_byCode hopen code with ⟨hnone, he⟩ | ⟨v', hcode, hs, he⟩
  · rw [he]
    exact ⟨fun e => (nomatch e), fun ⟨hcode, hs⟩ => absurd hcode (hnone v hs)⟩
  · rw [he, Except.ok.injEq]
    refine ⟨fun e => e ▸ ⟨hcode, hs⟩, fun ⟨hcode', hs'⟩ => hs.ext hs' ?_⟩
    exact hw.contents.wellFormed.code_unique _ _ code
      ⟨_, Dag.node?_of_active hs.1, hcode⟩ ⟨_, Dag.node?_of_active hs'.1, hcode'⟩

/-- The store alone gives the current view with the id or the code. -/
theorem look_iff {key : Key k} {v : NodeView k} :
    w.hierarchy.look key.work = .ok v ↔ key.Names v ∧ g.Shows v := by
  cases key with
  | byId id => exact hw.look_byId_iff hopen
  | byCode code => exact hw.look_byCode_iff hopen

end Open

theorem look_shows (hw : Coherent P w g) {key : Key k} {v : NodeView k}
    (hv : w.hierarchy.look key.work = .ok v) : g.Shows v := by
  cases hl : w.hierarchy.store.locked with
  | true =>
    rw [Hierarchy.look_of_locked hw.refusal hl] at hv
    cases hv
  | false => exact ((hw.look_iff hl).1 hv).2

/-! ## Events -/

/-- After an operation that changed nothing. -/
theorem unchanged (hw : Coherent P w g) (hh : w.hierarchy.Thins h) :
    Coherent P ⟨h, World.aged w.hierarchy.writes h.writes w.pending⟩ g := by
  rw [World.aged, if_pos hh.writes]
  exact hw.thins hh

/-- After a change: the views of the nodes it touched are dropped, those of all others are as they
were, and every lookup under way counts one change more. -/
theorem committed (hw : Coherent P w g) (hh : w.hierarchy.Thins h) {g' : Dag k} {t : Contents k}
    {touched : List (NodeId k)} (ht : t.Holds g') (hfar : ∀ x, x ∉ touched → g.Agrees g' x) :
    Coherent P ⟨h.committed t touched,
      World.aged w.hierarchy.writes (h.committed t touched).writes w.pending⟩ g' := by
  have hleft := Hierarchy.Thins.foldl_evict
    (h := { h with store := { h.store with contents := t }, writes := h.writes + 1 }) touched
  have hcount : (h.committed t touched).writes = w.hierarchy.writes + 1 :=
    hleft.writes.trans (congrArg (· + 1) hh.writes)
  have hne : w.hierarchy.writes + 1 ≠ w.hierarchy.writes := by simp
  rw [hcount, World.aged, if_neg hne]
  refine
    { refusal := by rw [Hierarchy.committed_store]; exact hh.refusal.trans hw.refusal
      contents := by rw [Hierarchy.committed_store]; exact ht
      rival := hleft.rival.trans (hh.rival.trans hw.rival)
      givesBack := fun v hv => (hleft.givesBack v).2 ((hh.givesBack v).2 (hw.givesBack v hv))
      counted := ?counted
      current := ?current
      cached := ?cached }
  case counted =>
    intro l hl
    obtain ⟨l, hmem, rfl⟩ := List.mem_map.1 hl
    simp only [hcount]
    rw [hw.counted l hmem, UInt64.ofNat_add, ← UInt64.add_assoc]
    rfl
  case current =>
    intro l hl v hv
    obtain ⟨l, hmem, rfl⟩ := List.mem_map.1 hl
    exact ⟨(hw.current l hmem v hv).1, fun hsince => absurd hsince (Nat.succ_ne_zero _)⟩
  case cached =>
    intro id v hv
    have hdropped : (h.committed t touched).kept id = if id ∈ touched then none else h.kept id :=
      Hierarchy.kept_foldl_evict touched id
    rw [hdropped] at hv
    split at hv
    case isTrue => cases hv
    case isFalse hid =>
      obtain ⟨rfl, hshows | ⟨l, hl, hputs, -⟩⟩ := hw.cached id v (hh.kept id v hv)
      · exact ⟨rfl, .inl (hshows.agrees (hfar _ hid))⟩
      · exact ⟨rfl, .inr ⟨_, List.mem_map.2 ⟨l, hl, rfl⟩, hputs, Nat.succ_ne_zero _⟩⟩

theorem serve (hw : Coherent P w g) (env : Surroundings k) (op : Operation k)
    (hfits : (w.hierarchy.serve env op).2.store.contents.Fits) :
    ∃ g', Coherent P (w.step (.serve env op)) g' := by
  have hwithin : ∀ ids, w.hierarchy.Thins { w.hierarchy.within env with ids } := fun _ =>
    ⟨rfl, rfl, rfl, rfl, fun _ => .rfl, fun _ _ hv => hv⟩
  simp only [World.step]
  rcases w.hierarchy.serve_cases hw.refusal hw.contents env op with ⟨g', hm⟩ | hlocked
  · refine ⟨g', ?_⟩
    have hcontents := hm.contents hw.contents hfits
    revert hm hcontents
    generalize (w.hierarchy.serve env op).2 = h'
    intro hm hcontents
    cases hm with
    | stay ids => exact hw.unchanged (hwithin ids)
    | commit ids t touched hholds hfar =>
      rw [Hierarchy.committed_store] at hcontents
      exact hw.committed (hwithin ids) hcontents hfar
  · refine ⟨g, ?_⟩
    rw [hlocked]
    exact hw.unchanged ⟨rfl, rfl, rfl, rfl, fun _ => .rfl, fun _ _ hv => hv⟩

/-- A lookup from beginning to end leaves the hierarchy as it is or keeps what it found. -/
theorem find_cases (hw : Coherent P w g) (key : Key k) :
    (w.hierarchy.find key).2 = w.hierarchy ∨
      ∃ v, g.Shows v ∧ (w.hierarchy.find key).2 = w.hierarchy.keep v := by
  rw [Hierarchy.find_eq_readThrough]
  unfold Hierarchy.readThrough
  split
  case h_1 => exact .inl rfl
  case h_2 =>
    split
    case h_1 => exact .inl rfl
    case h_2 v hv =>
      have hrival : w.hierarchy.letRivalIn = w.hierarchy := by
        rw [Hierarchy.letRivalIn, hw.rival]
        split
        · contradiction
        · rfl
      refine .inr ⟨v, hw.look_shows hv, ?_⟩
      rw [hrival, Hierarchy.fill_eq]
      refine if_pos ?_
      rw [Hierarchy.keep_writes]

theorem find (hw : Coherent P w g) (hviews : ∀ v, g.Shows v → P v) (key : Key k) :
    Coherent P (w.step (.find key)) g := by
  rcases hw.find_cases key with he | ⟨v, hv, he⟩
  · simp only [World.step, he]
    exact hw
  · simp only [World.step, he]
    exact hw.keep (hviews v hv) (.inl hv)

theorem begin (hw : Coherent P w g) : Coherent P (w.step .begin) g := by
  refine hw.relist (fun l hl => ?_) fun l hl _ _ _ _ _ => List.mem_cons_of_mem _ hl
  rcases List.mem_cons.1 hl with rfl | hl
  · exact .inr ⟨by simp, fun v hv => by cases hv⟩
  · exact .inl hl

theorem read (hw : Coherent P w g) (hviews : ∀ v, g.Shows v → P v) (i : Nat) (key : Key k) :
    Coherent P (w.step (.read i key)) g := by
  simp only [World.step]
  split
  case h_2 => exact hw
  case h_1 seen since hi =>
    have hcount := hw.counted _ (List.mem_of_getElem? hi)
    have hne : ∀ {l : Lookup k} {id}, l.Puts id → l ≠ ⟨seen, .begun, since⟩ := by
      rintro l id ⟨v, hv, -⟩ rfl
      cases hv
    split
    case h_1 v hv =>
      refine hw.relist (fun l hl => ?_) fun l hl _ _ _ hputs _ => mem_set_of_ne hi hl (hne hputs)
      rcases List.mem_or_eq_of_mem_set hl with hl | rfl
      · exact .inl hl
      · refine .inr ⟨hcount, fun v' hv' => ?_⟩
        obtain rfl := Option.some.inj hv'
        exact ⟨hviews v (hw.look_shows hv), fun _ => hw.look_shows hv⟩
    case h_2 =>
      exact hw.relist (fun l hl => .inl (List.mem_of_mem_eraseIdx hl))
        fun l hl _ _ _ hputs _ => mem_eraseIdx_of_ne hi hl (hne hputs)

theorem put (hw : Coherent P w g) (i : Nat) : Coherent P (w.step (.put i)) g := by
  simp only [World.step]
  split
  case h_2 => exact hw
  case h_1 seen v since hi =>
    have hcount := hw.counted _ (List.mem_of_getElem? hi)
    have hcurrent := hw.current _ (List.mem_of_getElem? hi)
    have hmoved : Coherent P { w with pending := w.pending.set i ⟨seen, .put v, since⟩ } g := by
      refine hw.relist (fun l hl => ?_) fun l hl id _ _ hputs _ => mem_set_of_ne hi hl ?_
      · rcases List.mem_or_eq_of_mem_set hl with hl | rfl
        · exact .inl hl
        · exact .inr ⟨hcount, hcurrent⟩
      · rintro rfl
        obtain ⟨_, hv, -⟩ := hputs
        cases hv
    obtain ⟨hback, hshows⟩ := hcurrent v rfl
    refine hmoved.keep hback ?_
    by_cases hsince : since = 0
    · exact .inl (hshows hsince)
    · have hlt := (List.getElem?_eq_some_iff.1 hi).1
      exact .inr ⟨_, List.mem_set hlt _, ⟨v, rfl, rfl⟩, hsince⟩

/-- A lookup that counts no change since its note is at zero: the count has not come round. -/
theorem since_eq_zero (hw : Coherent P w g) {l : Lookup k} (hl : l ∈ w.pending)
    (hlt : l.since < UInt64.size) (hseen : w.hierarchy.writes = l.seen) : l.since = 0 := by
  have hsame : l.seen = l.seen + UInt64.ofNat l.since := hseen ▸ hw.counted l hl
  have hnat := congrArg UInt64.toNat (UInt64.left_eq_add.1 hsame)
  rwa [UInt64.toNat_ofNat_of_lt' hlt] at hnat

theorem recheck (hw : Coherent P w g) (i : Nat)
    (hspan : ∀ l ∈ w.pending, l.since < UInt64.size) : Coherent P (w.step (.recheck i)) g := by
  simp only [World.step]
  split
  case h_2 => exact hw
  case h_1 seen v since hi =>
    have hmem := List.mem_of_getElem? hi
    unfold Hierarchy.recheck
    split
    case isTrue hseen =>
      have hzero : since = 0 := hw.since_eq_zero hmem (hspan _ hmem) hseen
      refine hw.relist (fun l hl => .inl (List.mem_of_mem_eraseIdx hl))
        fun l hl id v' _ _ hsince => mem_eraseIdx_of_ne hi hl ?_
      rintro rfl
      exact hsince hzero
    case isFalse =>
      refine (hw.thins (.evict _ v.node.id)).relist (fun l hl => .inl (List.mem_of_mem_eraseIdx hl))
        fun l hl id v' hkept hputs _ => mem_eraseIdx_of_ne hi hl ?_
      rintro rfl
      obtain ⟨_, ⟨⟩, rfl⟩ := hputs
      rw [Hierarchy.kept_evict, if_pos rfl] at hkept
      cases hkept

theorem fill (hw : Coherent P w g) (i : Nat) (hspan : ∀ l ∈ w.pending, l.since < UInt64.size) :
    Coherent P (w.step (.fill i)) g := by
  have hput := hw.put i
  simp only [World.step] at hput ⊢
  split at hput
  case h_2 => exact hw
  case h_1 seen v since hi =>
    have hlt := hspan _ (List.mem_of_getElem? hi)
    have hspan' : ∀ l ∈ w.pending.set i ⟨seen, .put v, since⟩, l.since < UInt64.size := by
      intro l hl
      rcases List.mem_or_eq_of_mem_set hl with hl | rfl
      · exact hspan l hl
      · exact hlt
    have hdone := hput.recheck i hspan'
    have hplace : (w.pending.set i ⟨seen, .put v, since⟩)[i]? = some ⟨seen, .put v, since⟩ :=
      List.getElem?_set_self (List.getElem?_eq_some_iff.1 hi).1
    simp only [World.step, hplace, List.eraseIdx_set_eq] at hdone
    simp only [Hierarchy.fill_eq]
    exact hdone

/-- Every event keeps the cache coherent with the graph that the store holds by then. -/
theorem step (hw : Coherent P w g) (hviews : ∀ v, g.Shows v → P v) (e : Event k)
    (hfits : (w.step e).hierarchy.store.contents.Fits)
    (hspan : ∀ l ∈ w.pending, l.since < UInt64.size) : ∃ g', Coherent P (w.step e) g' := by
  cases e with
  | serve env op => exact hw.serve env op hfits
  | find key => exact ⟨g, hw.find hviews key⟩
  | lose ids codes => exact ⟨g, hw.thins (.lose _ ids codes)⟩
  | expire keys => exact ⟨g, hw.thins (.expire _ keys)⟩
  | begin => exact ⟨g, hw.begin⟩
  | read i key => exact ⟨g, hw.read hviews i key⟩
  | put i => exact ⟨g, hw.put i⟩
  | recheck i => exact ⟨g, hw.recheck i hspan⟩
  | fill i => exact ⟨g, hw.fill i hspan⟩

theorem run (hw : Coherent P w g) (events : List (Event k))
    (hfits : ∀ n, (w.run (events.take n)).hierarchy.store.contents.Fits)
    (hspan : ∀ n, ∀ l ∈ (w.run (events.take n)).pending, l.since < UInt64.size)
    (hviews : ∀ n v, (w.run (events.take n)).hierarchy.store.contents.Current v → P v) :
    ∃ g', Coherent P (w.run events) g' := by
  induction events generalizing w g with
  | nil => exact ⟨g, hw⟩
  | cons e rest ih =>
    have hshown : ∀ v, g.Shows v → P v := fun v hv =>
      hviews 0 v (hw.contents.current_iff.2 hv)
    obtain ⟨g', hw'⟩ := hw.step hshown e (hfits 1) (hspan 0)
    exact ih hw' (fun n => hfits (n + 1)) (fun n => hspan (n + 1)) fun n => hviews (n + 1)

theorem start {h : Hierarchy k} (hstart : h.store = {}) (hrival : h.rival = none)
    (hcache : ∀ id, h.kept id = none) : Coherent h.cache.GivesBack ⟨h, []⟩ {} where
  refusal := by rw [hstart]
  contents := by rw [hstart]; exact .empty
  rival := hrival
  givesBack _ := id
  counted _ hl := absurd hl List.not_mem_nil
  current _ hl := absurd hl List.not_mem_nil
  cached id v hv := by rw [hcache] at hv; cases hv

/-! ## Answers -/

/-- A lookup answers what the cache does, and otherwise what the store does. -/
theorem find_fst (h : Hierarchy k) (key : Key k) : (∃ v, h.hit key = .ok (some v) ∧
      (h.find key).1 = .ok v) ∨
    (∀ v, h.hit key ≠ .ok (some v)) ∧ (h.find key).1 = h.look key.work := by
  rw [Hierarchy.find_eq_readThrough]
  unfold Hierarchy.readThrough
  split
  case h_1 v hv => exact .inl ⟨v, hv, rfl⟩
  case h_2 hnone =>
    refine .inr ⟨hnone, ?_⟩
    split
    case h_1 he => exact he.symm
    case h_2 hv => exact hv.symm

section Idle

variable (hw : Coherent P w g) (hidle : ∀ l ∈ w.pending, ∀ id, ¬ l.Puts id)

include hw hidle

/-- While no lookup is about to drop what it put, the cache answers current views only. -/
theorem hit_shows {key : Key k} {v : NodeView k} (hv : w.hierarchy.hit key = .ok (some v)) :
    key.Names v ∧ g.Shows v := by
  have hkept : ∀ id, w.hierarchy.kept id = some v → v.node.id = id ∧ g.Shows v := by
    intro id hid
    obtain ⟨hown, hs | ⟨l, hl, hputs, -⟩⟩ := hw.cached id v hid
    · exact ⟨hown, hs⟩
    · exact absurd hputs (hidle l hl id)
  cases key with
  | byId id => exact hkept id (Hierarchy.kept_eq_some.2 hv)
  | byCode code =>
    obtain ⟨hcode, id, hid⟩ := Hierarchy.cachedByCode_eq_ok hv
    exact ⟨hcode, (hkept id hid).2⟩

/-- Then a lookup answers what the store does. -/
theorem find_eq (hopen : w.hierarchy.store.locked = false) (key : Key k) :
    (w.hierarchy.find key).1 = w.hierarchy.look key.work := by
  rcases find_fst w.hierarchy key with ⟨v, hv, he⟩ | ⟨-, he⟩
  · rw [he, (hw.look_iff hopen).2 (hw.hit_shows hidle hv)]
  · exact he

/-- A store that is locked gives nothing: what is not in the cache cannot be told. -/
theorem find_locked (hlocked : w.hierarchy.store.locked = true) (key : Key k) :
    (∃ v, w.hierarchy.hit key = .ok (some v) ∧ (w.hierarchy.find key).1 = .ok v ∧
        key.Names v ∧ g.Shows v) ∨
      (∀ v, w.hierarchy.hit key ≠ .ok (some v)) ∧
        (w.hierarchy.find key).1 = .error (.store MemoryStore.lockedError) := by
  rcases find_fst w.hierarchy key with ⟨v, hv, he⟩ | ⟨hnone, he⟩
  · exact .inl ⟨v, hv, he, hw.hit_shows hidle hv⟩
  · exact .inr ⟨hnone, he.trans (Hierarchy.look_of_locked hw.refusal hlocked _)⟩

end Idle

end Coherent

/-- In every world that events lead to from an empty store and an empty cache in memory, a lookup by
id or by code answers what the store alone does, unless a view that was put into the cache still
waits to be looked at again: the view of the active node with the id or the code as it is by then,
or that there is none. A store that is locked gives nothing; then a lookup answers the view that the
cache has, which is that same view, and fails without one. The count of changes has 64 bits, so that
no lookup lasts for all of its values is said of each state. -/
theorem World.run_coherent (h : Hierarchy k) (hstart : h.store = {}) (hrival : h.rival = none)
    (hcache : ∃ retains, h.cache = .memory { retains }) (events : List (Event k))
    (hfits : ∀ n, (run ⟨h, []⟩ (events.take n)).hierarchy.store.contents.Fits)
    (hspan : ∀ n, ∀ l ∈ (run ⟨h, []⟩ (events.take n)).pending, l.since < UInt64.size)
    (hidle : ∀ l ∈ (run ⟨h, []⟩ events).pending, ∀ id, ¬ l.Puts id) :
    let h' := (run ⟨h, []⟩ events).hierarchy
    let s := h'.store.contents
    (h'.store.locked = false →
      (∀ id, (h'.findById id).1 = h'.look (Work.viewById id)) ∧
        (∀ code, (h'.findByCode code).1 = h'.look (Work.viewByCode code)) ∧
        (∀ id v, (h'.findById id).1 = .ok v ↔ v.node.id = id ∧ s.Current v) ∧
        (∀ id, s.active.get? id = none → (h'.findById id).1 = .error (.notFound (.node id))) ∧
        (∀ code v, (h'.findByCode code).1 = .ok v ↔ v.node.code = code ∧ s.Current v) ∧
        ∀ code, (∀ v, s.Current v → v.node.code ≠ code) →
          (h'.findByCode code).1 = .error (.notFound (.code code))) ∧
    (h'.store.locked = true → ∀ key : Key k,
      (∃ v, h'.hit key = .ok (some v) ∧ (h'.find key).1 = .ok v ∧ key.Names v ∧ s.Current v) ∨
        (∀ v, h'.hit key ≠ .ok (some v)) ∧
          (h'.find key).1 = .error (.store MemoryStore.lockedError)) := by
  obtain ⟨retains, hcache⟩ := hcache
  have hempty : ∀ id, h.kept id = none := fun id => by
    unfold Hierarchy.kept Hierarchy.cached
    rw [hcache]
    cases h.cacheOutage <;> rfl
  have hviews : ∀ v, h.cache.GivesBack v := fun v => by rw [hcache]; trivial
  obtain ⟨g, hw⟩ :=
    (Coherent.start hstart hrival hempty).run events hfits hspan fun _ v _ => hviews v
  refine ⟨fun hopen => ?unlocked, fun hlocked key => ?locked⟩
  case unlocked =>
    have hbyId := fun id => hw.find_eq hidle hopen (.byId id)
    have hbyCode := fun code => hw.find_eq hidle hopen (.byCode code)
    simp only [Hierarchy.find, Key.work] at hbyId hbyCode
    refine ⟨hbyId, hbyCode, fun id v => ?_, fun id hnone => ?_, fun code v => ?_,
      fun code hnone => ?_⟩
    · rw [hbyId, hw.look_byId_iff hopen, hw.contents.current_iff]
    · rcases hw.look_byId hopen id with ⟨-, he⟩ | ⟨v, rfl, hs, -⟩
      · rw [hbyId, he]
      · rw [hw.contents.active, hs.1] at hnone
        exact absurd hnone (Option.some_ne_none _)
    · rw [hbyCode, hw.look_byCode_iff hopen, hw.contents.current_iff]
    · rcases hw.look_byCode hopen code with ⟨-, he⟩ | ⟨v, hcode, hs, -⟩
      · rw [hbyCode, he]
      · exact absurd hcode (hnone v (hw.contents.current_iff.2 hs))
  case locked =>
    refine (hw.find_locked hidle hlocked key).imp_left ?_
    rintro ⟨v, hhit, he, hnames, hs⟩
    exact ⟨v, hhit, he, hnames, hw.contents.current_iff.2 hs⟩

/-- A node is removed while a lookup is between reading its view and keeping it. -/
def race : List (Event ⟨"tag"⟩) :=
  [.serve .calm (.add { code := "a", name := "a" }), .begin, .read 0 (.byId ⟨1⟩),
    .serve .calm (.delete ⟨1⟩), .fill 0]

/-- The view that was kept too late is not served. -/
theorem World.run_coherent_race :
    ((World.run ⟨{ cache := .memory {} }, []⟩ race).hierarchy.findById ⟨1⟩).1 =
      .error (.notFound (.node ⟨1⟩)) := by
  have hfits : ∀ n,
      (World.run ⟨{ cache := .memory {} }, []⟩ (race.take n)).hierarchy.store.contents.Fits := by
    intro n
    unfold Contents.Fits
    rcases Nat.lt_or_ge n 5 with hlt | hge
    · interval_cases n <;> decide +kernel
    · rw [List.take_of_length_le hge]
      decide +kernel
  have hspan : ∀ n, ∀ l ∈ (World.run ⟨{ cache := .memory {} }, []⟩ (race.take n)).pending,
      l.since < UInt64.size := by
    intro n
    rcases Nat.lt_or_ge n 5 with hlt | hge
    · interval_cases n <;> decide +kernel
    · rw [List.take_of_length_le hge]
      decide +kernel
  have hdone : (World.run ⟨{ cache := .memory {} }, []⟩ race).pending = [] :=
    List.isEmpty_iff.1 (by decide +kernel)
  have hgone : (World.run ⟨{ cache := .memory {} }, []⟩ race).hierarchy.store.contents.active.get?
      ⟨1⟩ = none := Option.isNone_iff_eq_none.1 (by decide +kernel)
  have hopen : (World.run ⟨{ cache := .memory {} }, []⟩ race).hierarchy.store.locked = false := by
    decide +kernel
  obtain ⟨hcoherent, -⟩ := run_coherent { cache := .memory {} } rfl rfl ⟨true, rfl⟩ race hfits hspan
    fun l hl => by rw [hdone] at hl; exact absurd hl List.not_mem_nil
  exact (hcoherent hopen).2.2.2.1 ⟨1⟩ hgone

/-- A node is registered, and its archiving is cut off. -/
def stalled : List (Event ⟨"tag"⟩) :=
  [.add { code := "a", name := "a" }, .archive ⟨1⟩].map (.serve .calm)

/-- Archivings are cut off, since the grace period leads past the last instant. -/
def stalling (cache : Cache ⟨"tag"⟩) : Hierarchy ⟨"tag"⟩ :=
  { settings := { gracePeriod := .ofSeconds 9000000000000 }, cache }

/-- The node is active, and no lookup is under way, but the locked store does not give it. -/
theorem World.lookup_cut_off :
    let w := run ⟨stalling (.memory {}), []⟩ stalled
    let v : NodeView ⟨"tag"⟩ := ⟨{ id := ⟨1⟩, code := "a", name := "a" }, false⟩
    w.pending = [] ∧ w.hierarchy.store.contents.Current v ∧
      (w.hierarchy.findById ⟨1⟩).1 = .error (.store MemoryStore.lockedError) ∧
      ¬ ∀ id v, (w.hierarchy.findById id).1 = .ok v ↔
        v.node.id = id ∧ w.hierarchy.store.contents.Current v := by
  intro w v
  have hleaf : ¬ ∃ y, Closure.Edge w.hierarchy.store.contents.rows ⟨1⟩ y := by
    rintro ⟨y, e⟩
    have hrows : w.hierarchy.store.contents.rows = [.self ⟨1⟩] := by decide +kernel
    rw [Closure.Edge, hrows] at e
    simp [Path.self, Path.direct] at e
  have hcurrent : w.hierarchy.store.contents.Current v :=
    ⟨rfl, iff_of_false Bool.false_ne_true hleaf⟩
  have hanswer : (w.hierarchy.findById ⟨1⟩).1 = .error (.store MemoryStore.lockedError) := rfl
  refine ⟨rfl, hcurrent, hanswer, fun h => ?_⟩
  have hfound := (h ⟨1⟩ v).2 ⟨rfl, hcurrent⟩
  rw [hanswer] at hfound
  cases hfound

end Lineage

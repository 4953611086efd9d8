import Lineage.Proofs.Activity
import Lineage.Proofs.Listings
import Lineage.Proofs.Script

/-!
# Nothing fails but what is rejected

An operation or a lookup answers an error if the hierarchy decided against it, or if something that
it relies on failed. Over a store that started empty the store itself never fails: what its rules
forbid is not asked of it.

* `HierarchyError.IsDecided`: the hierarchy decided on the error itself; no rule of the store did.
* `Dag.serve_decided`: an operation on a graph answers no other errors, if the guard answers.
* `Errand`, `Hierarchy.attendAll`: operations and lookups in any order.
* `Hierarchy.attendAll_decided`: nor do they on a hierarchy, and every call that a change makes to
  the store is sound (`Script.Sound`).
-/

open Relation

namespace Lineage

variable {k : Kind} {α β : Type}

/-! ## Decided errors -/

/-- A rejection that the hierarchy decided on itself. -/
structure HierarchyError.IsDecided (e : HierarchyError k) : Prop where
  rejection : e.isRejection = true
  no_rule : ∀ detail, e ≠ .conflict (.rule detail)

theorem HierarchyError.IsDecided.notFound (sought : Sought k) :
    (HierarchyError.notFound sought).IsDecided :=
  ⟨rfl, by simp⟩

/-- An answer that is no error, or a decided one. -/
def Decides (answer : Except (HierarchyError k) α) : Prop := ∀ e, answer = .error e → e.IsDecided

@[simp] theorem decides_ok (a : α) : Decides (.ok a : Except (HierarchyError k) α) := nofun

@[simp] theorem decides_error {e : HierarchyError k} :
    Decides (.error e : Except (HierarchyError k) α) ↔ e.IsDecided :=
  ⟨fun h => h e rfl, fun h _ he => Except.error.inj he ▸ h⟩

/-- A failure that is a decided error. -/
def Failure.IsDecided (f : Failure k) : Prop := ∃ cause, f = .refused cause ∧ cause.IsDecided

theorem Decides.failure {answer : Except (HierarchyError k) α} (h : Decides answer)
    {reply : α → β} {f : Failure k}
    (hf : (answer.map reply).mapError Failure.refused = .error f) : f.IsDecided := by
  cases answer with
  | ok a => cases hf
  | error e => exact ⟨e, (Except.error.inj hf).symm, h e rfl⟩

/-! ## On a graph -/

namespace Dag

variable (g : Dag k)

theorem insert_decides (node : Node k) : Decides (g.insert node).1 := by
  unfold insert
  split
  · exact decides_error.2 ⟨rfl, by simp⟩
  · split
    · exact decides_error.2 ⟨rfl, by simp⟩
    · exact decides_ok ()

theorem overwrite_decides (node : Node k) : Decides (g.overwrite node).1 := by
  unfold overwrite
  split
  · exact decides_error.2 ⟨rfl, by simp⟩
  · split
    · exact decides_error.2 ⟨rfl, by simp⟩
    · exact decides_ok ()

theorem link_decides (a d : NodeId k) : Decides (g.link a d).1 := by
  unfold link
  split
  · exact decides_error.2 ⟨rfl, by simp⟩
  · split
    · exact decides_error.2 ⟨rfl, by simp⟩
    · split
      · exact decides_error.2 ⟨rfl, by simp⟩
      · split
        · exact decides_error.2 ⟨rfl, by simp⟩
        · exact decides_ok ()

theorem unlink_decides (leafOnly : Bool) (a d : NodeId k) :
    Decides (g.unlink leafOnly a d).1 := by
  unfold unlink
  split
  · exact decides_error.2 ⟨rfl, by simp⟩
  · split
    · exact decides_ok ()
    · exact decides_error.2 ⟨rfl, by simp⟩

theorem archive_decides (id : NodeId k) : Decides (g.archive id).1 := by
  unfold archive
  split
  · exact decides_error.2 ⟨rfl, by simp⟩
  · exact decides_ok ()

theorem recover_decides (id : NodeId k) : Decides (g.recover id).1 := by
  unfold recover
  split
  · exact decides_error.2 ⟨rfl, by simp⟩
  · exact decides_ok ()

theorem purge_decides (id : NodeId k) : Decides (g.purge id).1 := by
  unfold purge
  split <;> exact decides_ok _

theorem delete_decides (id : NodeId k) : Decides (g.delete id).1 := by
  unfold delete
  split
  · exact decides_error.2 ⟨rfl, by simp⟩
  · exact decides_ok ()

variable {g} {env : Surroundings k} (hguard : ∀ id, ∃ cs, env.consumersOf id = .ok cs)

include hguard

theorem unused_decides {id : NodeId k} {change : Except (HierarchyError k) Unit × Dag k}
    (hchange : Decides change.1) : Decides (g.unused env id change).1 := by
  obtain ⟨cs, hcs⟩ := hguard id
  unfold unused
  rw [hcs]
  cases cs with
  | nil => exact hchange
  | cons c cs => exact decides_error.2 ⟨rfl, by simp⟩

/-- An operation on a graph answers no error but a decided one, if the guard answers. -/
theorem serve_decided {leafOnly : Bool} {op : Operation k} {f : Failure k}
    (hf : (g.serve leafOnly env op).1 = .error f) : f.IsDecided := by
  cases op with
  | add new =>
    rw [serve] at hf
    split at hf
    · cases hf
      exact ⟨_, rfl, rfl, by simp⟩
    · exact (g.insert_decides _).failure hf
  | update node =>
    rw [serve] at hf
    split at hf
    · cases hf
      exact ⟨_, rfl, rfl, by simp⟩
    · exact (g.overwrite_decides _).failure hf
  | link a d => exact (g.link_decides a d).failure hf
  | unlink a d => exact (g.unlink_decides leafOnly a d).failure hf
  | archive id => exact (unused_decides hguard (g.archive_decides id)).failure hf
  | recover id => exact (g.recover_decides id).failure hf
  | purge id =>
    obtain ⟨cs, hcs⟩ := hguard id
    rw [serve, hcs] at hf
    cases cs with
    | nil => exact (g.purge_decides id).failure hf
    | cons c cs => cases hf
  | delete id => exact (unused_decides hguard (g.delete_decides id)).failure hf
  | deleteByCode code =>
    rw [serve] at hf
    split at hf
    · cases hf
    · split at hf
      · cases hf
        exact ⟨_, rfl, rfl, by simp⟩
      · exact (unused_decides hguard (g.delete_decides _)).failure hf

end Dag

/-! ## Lookups -/

/-- What may be asked of a hierarchy without changing it. -/
inductive Inquiry (k : Kind)
  | find (key : Key k)
  | idByCode (code : String)
  | list (listing : Listing k) (p : Pagination)
  | slice (lifecycle : Lifecycle) (filter : NodeFilter) (p : Pagination)
  | descendantIds (ids : List (NodeId k))
  | parents (ids : List (NodeId k))

namespace Hierarchy

/-- Answer an inquiry. Of an answer that is no error, only that there is one is told. -/
def inquire (h : Hierarchy k) : Inquiry k → Except (Failure k) (Reply k) × Hierarchy k
  | .find key => replied (fun _ => .done) (h.find key)
  | .idByCode code => replied (fun _ => .done) (h.idByCode code)
  | .list listing p => replied (fun _ => .done) (listing.ask h p)
  | .slice lifecycle filter p => replied (fun _ => .done) (h.slice lifecycle filter p, h)
  | .descendantIds ids => replied (fun _ => .done) (h.descendantIds ids, h)
  | .parents ids => replied (fun _ => .done) (h.parents ids, h)

/-- Nothing but the cache may be different. -/
structure Undisturbed (h h' : Hierarchy k) : Prop where
  store : h'.store = h.store
  settings : h'.settings = h.settings
  rival : h'.rival = h.rival

namespace Undisturbed

variable {h h' h'' : Hierarchy k}

theorem refl (h : Hierarchy k) : h.Undisturbed h := ⟨rfl, rfl, rfl⟩

theorem trans (hh : h.Undisturbed h') (hh' : h'.Undisturbed h'') : h.Undisturbed h'' :=
  ⟨hh'.store.trans hh.store, hh'.settings.trans hh.settings, hh'.rival.trans hh.rival⟩

theorem holds {g : Dag k} (hu : h.Undisturbed h') (hh : h.Holds g) : h'.Holds g :=
  ⟨hu.store ▸ hh.refusal, hu.store ▸ hh.locked, hu.store ▸ hh.contents⟩

theorem evict (h : Hierarchy k) (id : NodeId k) : h.Undisturbed (h.evict id) := by
  unfold Hierarchy.evict
  split <;> exact ⟨rfl, rfl, rfl⟩

theorem keep (h : Hierarchy k) (v : NodeView k) : h.Undisturbed (h.keep v) := by
  unfold Hierarchy.keep
  split <;> exact ⟨rfl, rfl, rfl⟩

theorem recheck (h : Hierarchy k) (v : NodeView k) (seen : UInt64) :
    h.Undisturbed (h.recheck v seen) := by
  unfold Hierarchy.recheck
  split
  · exact refl h
  · exact evict h _

theorem fill (h : Hierarchy k) (v : NodeView k) (seen : UInt64) :
    h.Undisturbed (h.fill v seen) := by
  rw [fill_eq]
  exact (keep h v).trans (recheck _ v seen)

theorem readThrough (hrival : h.rival = none) (hit : Except CacheError (Option (NodeView k)))
    (w : Work k (NodeView k)) : h.Undisturbed (h.readThrough hit w).2 := by
  have hquiet : h.letRivalIn = h := by
    unfold letRivalIn
    rw [hrival]
    cases h.cacheOutage <;> rfl
  unfold Hierarchy.readThrough
  split
  · exact refl h
  · split
    · exact refl h
    · dsimp only
      rw [hquiet]
      exact fill h _ _

theorem find (hrival : h.rival = none) (key : Key k) : h.Undisturbed (h.find key).2 := by
  cases key <;> exact readThrough hrival _ _

end Undisturbed

theorem look_of_readThrough {h : Hierarchy k} {hit : Except CacheError (Option (NodeView k))}
    {w : Work k (NodeView k)} {e : HierarchyError k} (he : (h.readThrough hit w).1 = .error e) :
    h.look w = .error e := by
  unfold readThrough at he
  split at he
  · cases he
  · split at he
    case h_1 e' hlook => rw [hlook, Except.error.inj he]
    case h_2 => cases he

section Holding

variable {h : Hierarchy k} {g : Dag k} (hh : h.Holds g)

include hh

theorem look_eq_ok {w : Work k α} {a : α} {t : Contents k}
    (hw : w h.store h.store.contents = .ok (a, t)) :
    h.look w = .ok a :=
  look_of_open hh.refusal hh.locked hw

/-- A lookup that is answered with an error did not find the node. -/
theorem notFound_of_find {key : Key k} {e : HierarchyError k} (he : (h.find key).1 = .error e) :
    ∃ sought, e = .notFound sought := by
  cases key with
  | byId id =>
    have hlook := look_of_readThrough he
    rw [look, run_eq hh] at hlook
    rcases Work.viewById_apply hh.refusal hh.contents id with ⟨-, hw⟩ | ⟨v, -, -, hw⟩
    · rw [hw] at hlook
      exact ⟨_, (Except.error.inj hlook).symm⟩
    · rw [hw] at hlook
      cases hlook
  | byCode code =>
    have hlook := look_of_readThrough he
    rw [look, run_eq hh] at hlook
    rcases Work.viewByCode_apply hh.refusal hh.contents code with ⟨-, hw⟩ | ⟨v, -, -, hw⟩
    · rw [hw] at hlook
      exact ⟨_, (Except.error.inj hlook).symm⟩
    · rw [hw] at hlook
      cases hlook

variable (hrival : h.rival = none)

include hrival

/-- A lookup finds a view or says that there is none. -/
theorem find_cases (key : Key k) : ∃ h', h.Undisturbed h' ∧
    ((∃ v, h.find key = (.ok v, h')) ∨ ∃ sought, h.find key = (.error (.notFound sought), h')) := by
  refine ⟨_, .find hrival key, ?_⟩
  cases hfound : (h.find key).1 with
  | ok v => exact .inl ⟨v, Prod.ext hfound rfl⟩
  | error e =>
    obtain ⟨sought, rfl⟩ := notFound_of_find hh hfound
    exact .inr ⟨sought, Prod.ext hfound rfl⟩

/-- An id is looked up by its code without an error. -/
theorem idByCode_eq (code : String) :
    ∃ found h', h.Undisturbed h' ∧ h.idByCode code = (.ok found, h') := by
  obtain ⟨h', hu, ⟨v, hv⟩ | ⟨sought, hnone⟩⟩ := find_cases hh hrival (.byCode code)
  · rw [find] at hv
    exact ⟨some v.node.id, h', hu, by rw [idByCode, hv]⟩
  · rw [find] at hnone
    exact ⟨none, h', hu, by rw [idByCode, hnone]⟩

/-- Ids are resolved without an error: those that are not found are left out. -/
theorem resolve_eq (ids : List (NodeId k)) :
    ∃ views h', h.Undisturbed h' ∧ resolve ids h = (.ok views, h') := by
  induction ids generalizing h with
  | nil => exact ⟨[], h, .refl h, rfl⟩
  | cons id rest ih =>
    obtain ⟨h₁, hu₁, hfound⟩ := find_cases hh hrival (.byId id)
    obtain ⟨views, h₂, hu₂, hrest⟩ := ih (hu₁.holds hh) (hu₁.rival.trans hrival)
    simp only [find] at hfound
    rcases hfound with ⟨v, hv⟩ | ⟨sought, hnone⟩
    · exact ⟨v :: views, h₂, hu₁.trans hu₂, by simp only [resolve, hv, hrest]⟩
    · exact ⟨views, h₂, hu₁.trans hu₂, by simp only [resolve, hnone, hrest]⟩

/-- A page of the views of ids that are found. -/
theorem pageOf_eq (ids : List (NodeId k)) (total : Nat) (p : Pagination) :
    ∃ page h', h.Undisturbed h' ∧ h.pageOf (.ok (ids, total)) p = (.ok page, h') := by
  obtain ⟨views, h', hu, hviews⟩ := resolve_eq hh hrival ids
  exact ⟨_, h', hu, by simp only [pageOf, hviews]; rfl⟩

/-- A listing that is asked for answers a page, unless the node whose children are listed is not
active. -/
theorem ask_decides (listing : Listing k) (p : Pagination) :
    Decides (listing.ask h p).1 ∧ h.Undisturbed (listing.ask h p).2 := by
  have hr := hh.refusal
  cases listing with
  | nodes lifecycle filter =>
    have hlook := look_eq_ok hh (Work.page_apply hr lifecycle filter p h.store.contents)
    rw [Listing.ask, page, hlook]
    exact ⟨decides_ok _, .refl h⟩
  | roots =>
    have hlook := look_eq_ok hh (Work.roots_apply hr p h.store.contents)
    obtain ⟨page, h', hu, hpage⟩ := pageOf_eq hh hrival (p.window h.store.contents.roots)
      h.store.contents.roots.length p
    rw [Listing.ask, roots, hlook, hpage]
    exact ⟨decides_ok _, hu⟩
  | children a =>
    cases ha : h.store.contents.active.get? a with
    | none =>
      have hlook : h.look (Work.children a p) = .error (.notFound (.node a)) := by
        rw [look, run_eq hh, Work.children, Work.bind_apply, Work.requireNode_apply hr, if_pos ha]
        rfl
      rw [Listing.ask, children, hlook]
      exact ⟨decides_error.2 (.notFound _), .refl h⟩
    | some node =>
      have hlook := look_eq_ok hh (Work.children_apply hr ha p)
      obtain ⟨page, h', hu, hpage⟩ := pageOf_eq hh hrival (p.window (h.store.contents.children a))
        (h.store.contents.children a).length p
      rw [Listing.ask, children, hlook, hpage]
      exact ⟨decides_ok _, hu⟩

/-- An inquiry is answered with no error but a decided one, and leaves all but the cache alone. -/
theorem inquire_decided (q : Inquiry k) :
    (∀ f, (h.inquire q).1 = .error f → f.IsDecided) ∧ h.Undisturbed (h.inquire q).2 := by
  have hr := hh.refusal
  cases q with
  | find key =>
    obtain ⟨h', hu, ⟨v, hv⟩ | ⟨sought, hnone⟩⟩ := find_cases hh hrival key
    · rw [inquire, hv]
      exact ⟨nofun, hu⟩
    · rw [inquire, hnone]
      exact ⟨fun f hf => ⟨_, (Except.error.inj hf).symm, .notFound sought⟩, hu⟩
  | idByCode code =>
    obtain ⟨found, h', hu, hfound⟩ := idByCode_eq hh hrival code
    rw [inquire, hfound]
    exact ⟨nofun, hu⟩
  | list listing p =>
    obtain ⟨hdecides, hu⟩ := ask_decides hh hrival listing p
    exact ⟨fun f hf => hdecides.failure hf, hu⟩
  | slice lifecycle filter p =>
    rw [inquire, slice, look_eq_ok hh (Work.slice_apply hr lifecycle filter p h.store.contents)]
    exact ⟨nofun, .refl h⟩
  | descendantIds ids =>
    have hanswer : ∃ answer, h.descendantIds ids = .ok answer := by
      unfold descendantIds
      split
      · exact ⟨[], rfl⟩
      · obtain ⟨answer, hw, -⟩ := Work.descendants_apply hr hh.contents ids
        exact ⟨answer, look_eq_ok hh hw⟩
    obtain ⟨answer, hanswer⟩ := hanswer
    rw [inquire, hanswer]
    exact ⟨nofun, .refl h⟩
  | parents ids =>
    have hanswer : ∃ answer, h.parents ids = .ok answer := by
      unfold parents
      split
      · exact ⟨[], rfl⟩
      · exact ⟨_, look_eq_ok hh (Work.ask_apply hr _ _ _)⟩
    obtain ⟨answer, hanswer⟩ := hanswer
    rw [inquire, hanswer]
    exact ⟨nofun, .refl h⟩

end Holding

end Hierarchy

/-! ## Runs -/

/-- What comes next: an operation in its surroundings, or an inquiry. -/
inductive Errand (k : Kind)
  | serve (env : Surroundings k) (op : Operation k)
  | inquire (q : Inquiry k)

namespace Hierarchy

/-- Attend to an errand. -/
def attend (h : Hierarchy k) : Errand k → Except (Failure k) (Reply k) × Hierarchy k
  | .serve env op => h.serve env op
  | .inquire q => h.inquire q

/-- Attend to errands, one after the other. -/
def attendAll (h : Hierarchy k) :
    List (Errand k) → List (Except (Failure k) (Reply k)) × Hierarchy k
  | [] => ([], h)
  | errand :: rest =>
    let (answer, h) := h.attend errand
    let (answers, h) := attendAll h rest
    (answer :: answers, h)

theorem foldl_evict_rival (touched : List (NodeId k)) (h : Hierarchy k) :
    (touched.foldl evict h).rival = h.rival := by
  induction touched generalizing h with
  | nil => rfl
  | cons id rest ih => rw [List.foldl_cons, ih, (Undisturbed.evict h id).rival]

theorem Moves.rival {h h' : Hierarchy k} {g g' : Dag k} (hm : Moves h g h' g') :
    h'.rival = h.rival := by
  cases hm with
  | stay => rfl
  | commit => exact foldl_evict_rival _ _

/-- The guard answers, and the purge of an archived node can be scheduled. -/
def Errand.Works (grace : Duration) : Errand k → Prop
  | .serve env op => (∀ id, ∃ cs, env.consumersOf id = .ok cs) ∧
    ∀ id, op = .archive id → env.Ready grace
  | .inquire _ => True

variable {h : Hierarchy k} {g : Dag k}

theorem attend_decided (hh : h.Holds g) (hrival : h.rival = none) (errand : Errand k)
    (hworks : Errand.Works h.settings.gracePeriod errand)
    (hfits : (h.attend errand).2.store.contents.Fits) :
    (∀ f, (h.attend errand).1 = .error f → f.IsDecided) ∧ (h.attend errand).2.rival = none ∧
      (h.attend errand).2.settings = h.settings ∧ ∃ g', (h.attend errand).2.Holds g' := by
  cases errand with
  | serve env op =>
    obtain ⟨hanswer, hmoves⟩ := serve_tracks hh env op hworks.2
    refine ⟨fun f hf => Dag.serve_decided hworks.1 (hanswer.symm.trans hf),
      hmoves.rival.trans hrival, hmoves.settings, _, hmoves.holds (within_holds hh env) hfits⟩
  | inquire q =>
    obtain ⟨hdecided, hu⟩ := inquire_decided hh hrival q
    exact ⟨hdecided, hu.rival.trans hrival, hu.settings, g, hu.holds hh⟩

theorem attendAll_holds (errands : List (Errand k)) (hh : h.Holds g) (hrival : h.rival = none)
    (hworks : ∀ errand ∈ errands, Errand.Works h.settings.gracePeriod errand)
    (hfits : ∀ n, (h.attendAll (errands.take n)).2.store.contents.Fits) :
    (∀ f, .error f ∈ (h.attendAll errands).1 → f.IsDecided) ∧
      ∃ g', (h.attendAll errands).2.Holds g' := by
  induction errands generalizing h g with
  | nil => exact ⟨fun f hf => absurd hf List.not_mem_nil, g, hh⟩
  | cons errand rest ih =>
    obtain ⟨hdecided, hrival', hsettings, g', hh'⟩ :=
      attend_decided hh hrival errand (hworks errand List.mem_cons_self) (hfits 1)
    obtain ⟨hrest, hlast⟩ := ih hh' hrival'
      (fun errand hmem => hsettings ▸ hworks errand (List.mem_cons_of_mem _ hmem))
      fun n => hfits (n + 1)
    refine ⟨fun f hf => ?_, hlast⟩
    rcases List.mem_cons.1 hf with hf | hf
    · exact hdecided f hf.symm
    · exact hrest f hf

/-- Over a store that started empty, whatever operations and lookups follow one another, every error
that is answered is a rejection, and none is that of a rule of the store, as long as the guard
answers and purges can be scheduled. After any of them, every call that a change makes to the store
is accepted, and the depths that it sets and the pairs that it deletes are those of rows. -/
theorem attendAll_decided (h : Hierarchy k) (hstart : h.store = {}) (hrival : h.rival = none)
    (errands : List (Errand k))
    (hworks : ∀ errand ∈ errands, Errand.Works h.settings.gracePeriod errand)
    (hfits : ∀ n, (h.attendAll (errands.take n)).2.store.contents.Fits) :
    (∀ f, .error f ∈ (h.attendAll errands).1 → ∃ cause, f = .refused cause ∧
        cause.isRejection = true ∧ ∀ detail, cause ≠ .conflict (.rule detail)) ∧
      ∀ n (c : Change k), c.script.work = c.work ∧
        c.script.Sound (h.attendAll (errands.take n)).2.store.contents := by
  have hempty : h.Holds {} := by
    refine ⟨?_, ?_, ?_⟩ <;> rw [hstart]
    exact .empty
  refine ⟨fun f hf => ?_, fun n c => ⟨c.work_script, ?_⟩⟩
  · obtain ⟨cause, hcause, hdecided⟩ := (attendAll_holds errands hempty hrival hworks hfits).1 f hf
    exact ⟨cause, hcause, hdecided.rejection, hdecided.no_rule⟩
  · obtain ⟨-, g, hh⟩ := attendAll_holds (errands.take n) hempty hrival
      (fun errand hmem => hworks errand (List.mem_of_mem_take hmem))
      fun m => by rw [List.take_take]; exact hfits _
    exact c.sound hh.contents

/-- An edge is asked for that would make a cycle, then a node that is not there. -/
def wayward : List (Errand ⟨"tag"⟩) :=
  [.serve .calm (.add { code := "a", name := "a" }),
    .serve .calm (.add { id := some ⟨2⟩, code := "b", name := "b" }),
    .serve .calm (.link ⟨1⟩ ⟨2⟩), .serve .calm (.link ⟨2⟩ ⟨1⟩), .inquire (.find (.byId ⟨3⟩))]

/-- What is refused then is refused by the hierarchy, and the row of the edge is there to be
deleted. -/
theorem attendAll_decided_wayward :
    (∀ f, .error f ∈ (attendAll { cache := .memory {} } wayward).1 →
      ∃ cause, f = .refused cause ∧ cause.isRejection = true ∧
        ∀ detail, cause ≠ .conflict (.rule detail)) ∧
      (Change.unlink true ⟨1⟩ ⟨2⟩).script.Sound
        (attendAll { cache := .memory {} } wayward).2.store.contents := by
  have hcalm : ∀ op : Operation ⟨"tag"⟩, Errand.Works
      ({ cache := .memory {} } : Hierarchy ⟨"tag"⟩).settings.gracePeriod (.serve .calm op) :=
    fun op => ⟨fun id => ⟨[], rfl⟩, fun _ _ => ⟨rfl, rfl, _, _, rfl, rfl⟩⟩
  have hworks : ∀ errand ∈ wayward,
      Errand.Works ({ cache := .memory {} } : Hierarchy ⟨"tag"⟩).settings.gracePeriod errand := by
    simp only [wayward, List.forall_mem_cons]
    exact ⟨hcalm _, hcalm _, hcalm _, hcalm _, trivial, List.forall_mem_nil _⟩
  have hfits := forall_take (l := wayward)
    (P := fun es => (attendAll { cache := .memory {} } es).2.store.contents.Fits)
    (by decide +kernel)
  obtain ⟨hdecided, hsound⟩ :=
    attendAll_decided { cache := .memory {} } rfl rfl wayward hworks hfits
  have hlast := (hsound wayward.length (.unlink true ⟨1⟩ ⟨2⟩)).2
  rw [List.take_length] at hlast
  exact ⟨hdecided, hlast⟩

end Hierarchy

end Lineage

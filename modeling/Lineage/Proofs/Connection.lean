import Lineage.Proofs.Rows
import Lineage.Store.Memory

/-!
# What a failed call leaves

A caller begins a transaction on a store, makes calls, whatever the earlier ones answered, and
commits or drops it. A call that fails leaves the transaction as it was, but for a batch of rows:
those before the first one that is rejected stay in.

* `Connection`, `Connection.Step`: a store with the transaction that is open on it, and what may be
  asked of it next.
* `Connection.Alike`: nothing that is asked later is answered differently, and nothing else is
  committed.
* `Contents.insertRows_cases`: what a batch of rows leaves.
* `Connection.failed_alike_iff`: a failed call makes no difference iff no row of it went in.
-/

namespace Lineage

variable {k : Kind}

/-! ## Batches of rows -/

/-- Rows can be added: no two are about one pair, and none is about a pair that has a row. -/
structure DepthMap.Admits (m : DepthMap k) (rows : List (Path k)) : Prop where
  distinct : (rows.map Path.pair).Nodup
  free : ∀ p ∈ rows, m.get? p.pair = none

/-- A row cannot be added once others are: its pair has a row, or one of the others is about it. -/
def DepthMap.Rejects (m : DepthMap k) (rows : List (Path k)) (p : Path k) : Prop :=
  p.pair ∈ rows.map Path.pair ∨ ∃ depth, m.get? p.pair = some depth

namespace DepthMap

variable {m : DepthMap k} {rows : List (Path k)} {p q : Path k}

theorem Admits.nil : m.Admits [] := ⟨List.nodup_nil, nofun⟩

theorem Admits.cons (hp : m.get? p.pair = none) (h : Admits (m.insert p.pair p.depth) rows) :
    m.Admits (p :: rows) := by
  have hrest : ∀ r ∈ rows, r.pair ≠ p.pair ∧ m.get? r.pair = none := by
    intro r hr
    have hfree := h.free r hr
    rw [Table.get?_insert] at hfree
    split at hfree
    case isTrue => cases hfree
    case isFalse hne => exact ⟨hne, hfree⟩
  refine ⟨List.nodup_cons.2 ⟨fun hmem => ?_, h.distinct⟩, fun r hr => ?_⟩
  · obtain ⟨r, hr, he⟩ := List.mem_map.1 hmem
    exact (hrest r hr).1 he
  · rcases List.mem_cons.1 hr with rfl | hr
    · exact hp
    · exact (hrest r hr).2

theorem Rejects.cons (h : Rejects (m.insert p.pair p.depth) rows q) : m.Rejects (p :: rows) q := by
  rcases h with hmem | ⟨depth, hdepth⟩
  · exact .inl (List.mem_cons_of_mem _ hmem)
  · rw [Table.get?_insert] at hdepth
    split at hdepth
    case isTrue he => exact .inl (he ▸ List.mem_cons_self)
    case isFalse => exact .inr ⟨depth, hdepth⟩

end DepthMap

namespace Contents

variable {α : Type}

/-- A batch goes in as a whole, or up to a row that is rejected. -/
theorem insertRows_cases (rows : List (Path k)) (m : DepthMap k) :
    insertRows rows m = (none, inserted rows m) ∨
      ∃ landed p left, rows = landed ++ p :: left ∧ m.Admits landed ∧ m.Rejects landed p ∧
        insertRows rows m = (some p, inserted landed m) := by
  induction rows generalizing m with
  | nil => exact .inl rfl
  | cons p rest ih =>
    rw [insertRows]
    cases hp : m.contains p.pair with
    | true => exact .inr ⟨[], p, rest, rfl, .nil, .inr (Table.contains_iff.1 hp), rfl⟩
    | false =>
      have hfree := Table.not_contains_iff.1 hp
      rcases ih (m.insert p.pair p.depth) with hall | ⟨landed, q, left, rfl, hadmits, hrejects, hq⟩
      · exact .inl hall
      · exact .inr ⟨p :: landed, q, left, rfl, hadmits.cons hfree, hrejects.cons, hq⟩

end Contents

/-- A store refuses one method at most. -/
theorem MemoryStore.failureOf?_of_ne {s : MemoryStore k} {method other : String} {e : StoreError}
    (h : s.failureOf? method = some e) (hne : method ≠ other) : s.failureOf? other = none := by
  unfold failureOf? at h ⊢
  obtain ⟨r, hr, -⟩ := Option.map_eq_some_iff.1 h
  obtain ⟨hr, hmethod⟩ := Option.filter_eq_some_iff.1 hr
  have hother : (r.method == other) = false := by
    rw [beq_iff_eq.1 hmethod]
    exact beq_false_of_ne hne
  rw [hr, Option.filter_some, hother]
  rfl

/-- The rows that a call adds one after the other. -/
def Call.batch {α : Type} : Call k α → List (Path k)
  | insertPaths rows => rows
  | _ => []

/-- A call that fails leaves the rows of its batch before the first one that is rejected, and
nothing else. -/
theorem Contents.perform_failed {α : Type} {t : Contents k} {c : Call k α} {e : StoreError}
    (h : (t.perform c).1 = .error e) : ∃ landed left, c.batch = landed ++ left ∧
      t.paths.Admits landed ∧ (∀ p ∈ left.head?, t.paths.Rejects landed p) ∧
      (t.perform c).2 = { t with paths := inserted landed t.paths } := by
  cases c with
  | insertPaths rows =>
    rw [perform, insertPaths] at h ⊢
    rcases insertRows_cases rows t.paths with hall | ⟨landed, p, left, hrows, hadmits, hrejects, hp⟩
    · rw [hall] at h
      cases h
    · rw [hp]
      refine ⟨landed, p :: left, hrows, hadmits, fun q hq => ?_, rfl⟩
      exact Option.some.inj hq ▸ hrejects
  | insertNode node =>
    refine ⟨[], [], rfl, .nil, fun p hp => absurd hp (Option.not_mem_none p), ?_⟩
    rw [perform, insertNode] at h ⊢
    split
    case isTrue => rfl
    case isFalse hid =>
      split
      case isTrue => rfl
      case isFalse hcode =>
        rw [if_neg hid, if_neg hcode] at h
        cases h
  | _ => cases h

/-! ## Connections -/

/-- A store, and the contents of the transaction that is open on it. -/
structure Connection (k : Kind) where
  store : MemoryStore k := {}
  tx : Option (Contents k) := none

namespace Connection

/-- What may be asked next. -/
inductive Step (k : Kind) : Type 1
  | begin
  | call {α : Type} (c : Call k α)
  | commit
  | drop

/-- The answer to a step. A transaction has to be open, except when one is to begin. -/
def reply (x : Connection k) : Step k → Option ((α : Type) × Except StoreError α)
  | .begin =>
    match x.tx with
    | none => some ⟨Unit, x.store.begin.map fun _ => ()⟩
    | some _ => none
  | .call c => x.tx.map fun t => ⟨_, (x.store.answer c t).1⟩
  | .commit => x.tx.map fun t => ⟨Unit, (x.store.commit t).map fun _ => ()⟩
  | .drop => x.tx.map fun _ => ⟨Unit, .ok ()⟩

/-- What a step leaves. A transaction that begins has the committed contents; one that cannot be
committed is dropped. -/
def next (x : Connection k) : Step k → Connection k
  | .begin =>
    match x.tx, x.store.begin with
    | none, .ok t => { x with tx := some t }
    | _, _ => x
  | .call c => { x with tx := x.tx.map fun t => (x.store.answer c t).2 }
  | .commit =>
    match x.tx with
    | none => x
    | some t => { store := (x.store.commit t).toOption.getD x.store }
  | .drop => { x with tx := none }

/-- What steps leave, one after the other. -/
def run (x : Connection k) (steps : List (Step k)) : Connection k := steps.foldl next x

/-- The answers to steps, one after the other. -/
def replies (x : Connection k) : List (Step k) → List (Option ((α : Type) × Except StoreError α))
  | [] => []
  | step :: rest => x.reply step :: (x.next step).replies rest

/-- Whatever is asked later, the answers are the same, and so is what is committed by then. -/
def Alike (x y : Connection k) : Prop :=
  ∀ steps, x.replies steps = y.replies steps ∧ (x.run steps).store = (y.run steps).store

theorem Alike.refl (x : Connection k) : x.Alike x := fun _ => ⟨rfl, rfl⟩

/-- Transactions with other rows are told apart: by reading all rows, or, where the store refuses
that, by what is committed. -/
theorem paths_eq_of_alike {s : MemoryStore k} {t u : Contents k}
    (h : Alike ⟨s, some t⟩ ⟨s, some u⟩) : t.paths = u.paths := by
  cases hread : s.failureOf? "all_paths" with
  | none =>
    have hanswer : ∀ v : Contents k, (s.answer .allPaths v).1 = .ok v.rows := by
      intro v
      rw [MemoryStore.answer, show (Call.allPaths : Call k _).name = "all_paths" from rfl, hread]
      rfl
    have hreply := List.head_eq_of_cons_eq (h [.call .allPaths]).1
    have hrows := eq_of_heq (Sigma.mk.inj (Option.some.inj hreply)).2
    rw [hanswer, hanswer] at hrows
    have hmaps := congrArg DepthMap.ofRows (Except.ok.inj hrows)
    rwa [Contents.rows, Contents.rows, DepthMap.ofRows_rows, DepthMap.ofRows_rows] at hmaps
  | some e =>
    have hcommit : ∀ v : Contents k, s.commit v = .ok { s with contents := v } := by
      intro v
      rw [MemoryStore.commit, MemoryStore.failureOf?_of_ne hread (by decide)]
    have hstore := (h [.commit]).2
    simp only [run, List.foldl_cons, List.foldl_nil, next, hcommit] at hstore
    exact congrArg (·.contents.paths) hstore

/-- A call that fails leaves some rows of its batch in the transaction: those before the first one
that is rejected, or none if the store refuses the call itself. Nothing that comes later is any
different iff there are no such rows. -/
theorem failed_alike_iff {α : Type} {s : MemoryStore k} {t : Contents k} {c : Call k α}
    {e : StoreError} (hfailed : (s.answer c t).1 = .error e) :
    ∃ landed left, c.batch = landed ++ left ∧ t.paths.Admits landed ∧
      (s.failureOf? c.name = none → ∀ p ∈ left.head?, t.paths.Rejects landed p) ∧
      next ⟨s, some t⟩ (.call c) =
        ⟨s, some { t with paths := Contents.inserted landed t.paths }⟩ ∧
      (Alike (next ⟨s, some t⟩ (.call c)) ⟨s, some t⟩ ↔ landed = []) := by
  have hlanded : ∃ landed left, c.batch = landed ++ left ∧ t.paths.Admits landed ∧
      (s.failureOf? c.name = none → ∀ p ∈ left.head?, t.paths.Rejects landed p) ∧
      (s.answer c t).2 = { t with paths := Contents.inserted landed t.paths } := by
    rw [MemoryStore.answer] at hfailed ⊢
    cases hrefused : s.failureOf? c.name with
    | some e => exact ⟨[], c.batch, rfl, .nil, nofun, rfl⟩
    | none =>
      rw [hrefused] at hfailed
      obtain ⟨landed, left, hbatch, hadmits, hrejects, hperform⟩ := Contents.perform_failed hfailed
      exact ⟨landed, left, hbatch, hadmits, fun _ => hrejects, hperform⟩
  obtain ⟨landed, left, hbatch, hadmits, hrejects, hanswer⟩ := hlanded
  have hnext : next ⟨s, some t⟩ (.call c) =
      ⟨s, some { t with paths := Contents.inserted landed t.paths }⟩ := by
    rw [← hanswer]
    rfl
  refine ⟨landed, left, hbatch, hadmits, hrejects, hnext, ?_⟩
  rw [hnext]
  constructor
  · intro halike
    have hpaths : Contents.inserted landed t.paths = t.paths := paths_eq_of_alike halike
    refine List.eq_nil_iff_forall_not_mem.2 fun p hp => ?_
    have hfree := hadmits.free p hp
    rw [← hpaths, Contents.get?_inserted hadmits.distinct,
      (DepthMap.get?_ofRows hadmits.distinct).2 hp] at hfree
    cases hfree
  · rintro rfl
    exact .refl _

/-- Contents with one active node. -/
def lone (node : Node ⟨"tag"⟩) : Contents ⟨"tag"⟩ := { active := Table.insert ∅ node.id node }

/-- A node that is rejected because of its code is as if it was never handed in. -/
theorem failed_alike_iff_code :
    Alike
      (next ⟨{}, some (lone ⟨⟨1⟩, "a", "A", "", ∅⟩)⟩ (.call (.insertNode ⟨⟨2⟩, "a", "B", "", ∅⟩)))
      ⟨{}, some (lone ⟨⟨1⟩, "a", "A", "", ∅⟩)⟩ := by
  obtain ⟨landed, left, hbatch, -, -, -, halike⟩ :=
    failed_alike_iff (s := {}) (t := lone ⟨⟨1⟩, "a", "A", "", ∅⟩)
      (c := .insertNode ⟨⟨2⟩, "a", "B", "", ∅⟩)
      (e := .constraint "tag code 'a' already exists") rfl
  exact halike.2 (List.append_eq_nil_iff.1 hbatch.symm).1

/-- The second row of a batch is rejected. The first one is read by later calls, and committed. -/
theorem part_of_batch_stays :
    let before : Connection ⟨"tag"⟩ :=
      run {} [.begin, .call (.insertPaths [Path.direct ⟨1⟩ ⟨2⟩])]
    let batch : Step ⟨"tag"⟩ :=
      .call (.insertPaths [Path.direct ⟨3⟩ ⟨4⟩, Path.direct ⟨1⟩ ⟨2⟩])
    before.reply batch = some ⟨Unit, .error (.constraint "tag path 1 -> 2 already exists")⟩ ∧
      before.reply (.call .allPaths) =
        some ⟨List (Path ⟨"tag"⟩), .ok [Path.direct ⟨1⟩ ⟨2⟩]⟩ ∧
      (before.next batch).reply (.call .allPaths) =
        some ⟨List (Path ⟨"tag"⟩), .ok [Path.direct ⟨1⟩ ⟨2⟩, Path.direct ⟨3⟩ ⟨4⟩]⟩ ∧
      (before.run [batch, .commit]).store.contents.rows =
        [Path.direct ⟨1⟩ ⟨2⟩, Path.direct ⟨3⟩ ⟨4⟩] ∧
      ¬ Alike (before.next batch) before := by
  refine ⟨rfl, rfl, rfl, rfl, fun halike => ?_⟩
  have hrows := congrArg (·.contents.rows) (halike [.commit]).2
  exact absurd hrows (by decide)

end Connection

end Lineage

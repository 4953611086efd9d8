import Lineage.Store.Contents
import Lineage.Proofs.Closure

/-!
# Writes of closure rows

What the depth map of a store holds after each way of writing rows, and after the two sequences of
writes that an operation is made of.

* `Contents.insertRows_eq`: a batch of rows for free pairs goes in as a whole.
* `Contents.get?_linked`: the writes that link an edge leave the least of the old depth and the way
  over the edge.
* `Contents.repaired_eq`: the writes that repair rows leave the closure of their edges.
-/

namespace Lineage.Contents

variable {k : Kind} {m : DepthMap k} {rows : List (Path k)} {q : NodeId k × NodeId k}

/-! ## One write -/

/-- The map after rows were added. -/
def inserted (rows : List (Path k)) (m : DepthMap k) : DepthMap k :=
  rows.foldl (fun m p => m.insert p.pair p.depth) m

/-- The map after the depths of rows were set. -/
def updated (rows : List (Path k)) (m : DepthMap k) : DepthMap k :=
  rows.foldl (fun m p => m.modify p.pair fun _ => p.depth) m

/-- The map after rows were deleted. -/
def deleted (rows : List (Path k)) (m : DepthMap k) : DepthMap k :=
  rows.foldl (fun m p => m.erase p.pair) m

theorem insertRows_eq (hnodup : (rows.map Path.pair).Nodup)
    (hfree : ∀ p ∈ rows, m.get? p.pair = none) : insertRows rows m = (none, inserted rows m) := by
  induction rows generalizing m with
  | nil => rfl
  | cons p rest ih =>
    rw [List.map_cons, List.nodup_cons] at hnodup
    have hp : m.contains p.pair = false :=
      Table.not_contains_iff.2 (hfree p List.mem_cons_self)
    rw [insertRows, hp, if_neg Bool.false_ne_true]
    refine ih hnodup.2 fun r hr => ?_
    have hne : r.pair ≠ p.pair := fun e => hnodup.1 (e ▸ List.mem_map_of_mem hr)
    rw [Table.get?_insert, if_neg hne]
    exact hfree r (List.mem_cons_of_mem _ hr)

theorem insertPaths_eq {s : Contents k} (hnodup : (rows.map Path.pair).Nodup)
    (hfree : ∀ p ∈ rows, s.paths.get? p.pair = none) :
    s.insertPaths rows = (.ok (), { s with paths := inserted rows s.paths }) := by
  rw [insertPaths, insertRows_eq hnodup hfree]

theorem get?_inserted (hnodup : (rows.map Path.pair).Nodup) :
    (inserted rows m).get? q = ((DepthMap.ofRows rows).get? q).or (m.get? q) := by
  have hkeys : ((rows.map fun p => (p.pair, p.depth)).map (·.1)).Nodup := by
    rwa [List.map_map]
  have hfold : inserted rows m =
      (rows.map fun p => (p.pair, p.depth)).foldl (fun t e => t.insert e.1 e.2) m := by
    rw [List.foldl_map]
    rfl
  rw [hfold, DepthMap.ofRows, Table.ofList, Table.get?_foldl_insert hkeys,
    Table.get?_foldl_insert hkeys, Table.get?_empty, Option.or_none]

/-- Of rows that agree on the depth of each pair, the depths after they were set. -/
theorem get?_updated {f : NodeId k × NodeId k → UInt32} (hf : ∀ p ∈ rows, p.depth = f p.pair) :
    (updated rows m).get? q =
      if q ∈ rows.map Path.pair then (m.get? q).map fun _ => f q else m.get? q := by
  induction rows generalizing m with
  | nil => simp [updated]
  | cons p rest ih =>
    have hrest := ih (m := m.modify p.pair fun _ => p.depth)
      fun r hr => hf r (List.mem_cons_of_mem _ hr)
    rw [updated, List.foldl_cons, ← updated, hrest, Table.get?_modify, hf p List.mem_cons_self]
    by_cases hq : q = p.pair
    · subst hq
      cases m.get? p.pair <;> simp
    · simp [hq]

theorem get?_deleted :
    (deleted rows m).get? q = if q ∈ rows.map Path.pair then none else m.get? q := by
  induction rows generalizing m with
  | nil => simp [deleted]
  | cons p rest ih =>
    rw [deleted, List.foldl_cons, ← deleted, ih, Table.get?_erase]
    by_cases hq : q = p.pair <;> simp [hq]

/-- A batch of rows leaves the rows that are there. -/
theorem exists_get?_inserted (hnodup : (rows.map Path.pair).Nodup)
    (hq : ∃ depth, m.get? q = some depth) : ∃ depth, (inserted rows m).get? q = some depth := by
  obtain ⟨depth, hdepth⟩ := hq
  rw [get?_inserted hnodup, hdepth, ← Option.isSome_iff_exists, Option.isSome_or]
  exact Bool.or_true _

/-! ## Linking -/

/-- The map after a plan was written. -/
def planned (plan : Closure.LinkPlan k) (m : DepthMap k) : DepthMap k :=
  updated plan.shorten (inserted plan.insert m)

section Planned

variable {candidates existing : List (Path k)} (hnodup : (candidates.map Path.pair).Nodup)
  (hexisting : ∀ c ∈ candidates, (DepthMap.ofRows existing).get? c.pair = m.get? c.pair)

include hexisting in
theorem free_of_mem_insert {p : Path k}
    (hp : p ∈ (Closure.planLink candidates existing).insert) : m.get? p.pair = none := by
  obtain ⟨hc, hnone⟩ := List.mem_filter.1 hp
  rw [← hexisting p hc]
  exact Option.isNone_iff_eq_none.1 hnone

include hexisting in
theorem longer_of_mem_shorten {p : Path k}
    (hp : p ∈ (Closure.planLink candidates existing).shorten) :
    ∃ depth, m.get? p.pair = some depth ∧ p.depth < depth := by
  obtain ⟨hc, hany⟩ := List.mem_filter.1 hp
  rw [hexisting p hc] at hany
  obtain ⟨depth, hdepth, hlt⟩ := (Option.any_eq_true _ _).1 hany
  exact ⟨depth, hdepth, by simpa using hlt⟩

include hnodup in
theorem nodup_insert : ((Closure.planLink candidates existing).insert.map Path.pair).Nodup :=
  hnodup.sublist (List.filter_sublist.map _)

include hnodup in
/-- No pair occurs twice in a plan. -/
theorem nodup_planLink : (((Closure.planLink candidates existing).insert ++
    (Closure.planLink candidates existing).shorten).map Path.pair).Nodup := by
  rw [List.map_append, List.nodup_append']
  refine ⟨nodup_insert hnodup, hnodup.sublist (List.filter_sublist.map _), ?_⟩
  intro q hinsert hshorten
  obtain ⟨p, hp, rfl⟩ := List.mem_map.1 hinsert
  obtain ⟨p', hp', e⟩ := List.mem_map.1 hshorten
  have hfree := Option.isNone_iff_eq_none.1 (List.mem_filter.1 hp).2
  have hstored := (List.mem_filter.1 hp').2
  rw [e, hfree] at hstored
  cases hstored

include hnodup hexisting

/-- The writes that link an edge leave at each pair the least of the old depth and the candidate's,
if there are such. -/
theorem get?_planned :
    (planned (Closure.planLink candidates existing) m).get? q =
      (m.get? q).merge min ((DepthMap.ofRows candidates).get? q) := by
  have hdepth : ∀ p ∈ (Closure.planLink candidates existing).shorten,
      p.depth = ((DepthMap.ofRows candidates).get? p.pair).getD 0 := by
    intro p hp
    rw [(DepthMap.get?_ofRows hnodup).2 (List.mem_filter.1 hp).1]
    rfl
  rw [planned, get?_updated (f := fun q => ((DepthMap.ofRows candidates).get? q).getD 0) hdepth,
    get?_inserted (nodup_insert hnodup), Closure.planLink, DepthMap.get?_ofRows_filter hnodup]
  simp only [DepthMap.mem_map_pair_filter hnodup]
  cases hc : (DepthMap.ofRows candidates).get? q with
  | none => simp
  | some c =>
    have hknown : (DepthMap.ofRows existing).get? q = m.get? q :=
      hexisting ⟨q.1, q.2, c⟩ ((DepthMap.get?_ofRows hnodup).1 hc)
    simp only [Path.pair, hknown]
    cases hm : m.get? q with
    | none => simp
    | some d =>
      by_cases hle : d ≤ c
      · simp [Std.min_eq_if, hle, UInt32.not_lt.2 hle]
      · simp [Std.min_eq_if, hle, UInt32.not_le.1 hle]

/-- A plan without rows is one that changes nothing. -/
theorem planned_eq_self_iff :
    planned (Closure.planLink candidates existing) m = m ↔
      (Closure.planLink candidates existing).isEmpty := by
  rw [Closure.LinkPlan.isEmpty, Bool.and_eq_true, List.isEmpty_iff, List.isEmpty_iff]
  constructor
  · intro h
    -- Each row of the plan is a candidate that wins over what its pair has.
    have hget : ∀ p ∈ candidates,
        (m.get? p.pair).merge min (some p.depth) = m.get? p.pair := fun p hp => by
      rw [← (DepthMap.get?_ofRows hnodup).2 hp, ← get?_planned hnodup hexisting, h]
    simp only [List.eq_nil_iff_forall_not_mem]
    constructor
    · intro p hp
      have hsame := hget p (List.mem_filter.1 hp).1
      rw [free_of_mem_insert hexisting hp] at hsame
      cases hsame
    · intro p hp
      have hsame := hget p (List.mem_filter.1 hp).1
      obtain ⟨depth, hdepth, hlt⟩ := longer_of_mem_shorten hexisting hp
      rw [hdepth, Option.merge_some_some, Std.min_eq_if, if_neg (UInt32.not_le.2 hlt)] at hsame
      exact UInt32.ne_of_lt hlt (Option.some.inj hsame)
  · rintro ⟨hinsert, hshorten⟩
    rw [planned, hinsert, hshorten]
    rfl

end Planned

/-- The rows to write when the edge from `a` to `d` is linked. -/
def linkPlan (a d : NodeId k) (m : DepthMap k) : Closure.LinkPlan k :=
  let upper := m.rows.filter fun p => p.descendant == a
  let lower := m.rows.filter fun p => p.ancestor == d
  Closure.planLink (Closure.linkCandidates upper lower) (m.rows.filter fun p =>
    (upper.map (·.ancestor)).contains p.ancestor &&
      (lower.map (·.descendant)).contains p.descendant)

/-- The map after an edge was linked. -/
def linked (a d : NodeId k) (m : DepthMap k) : DepthMap k :=
  updated (linkPlan a d m).shorten (inserted (linkPlan a d m).insert m)

/-- A store is read for a new edge in the order of its rows. -/
theorem reads_rows (a d : NodeId k) (m : DepthMap k) :
    Closure.Reads m.rows a d (m.rows.filter fun p => p.descendant == a)
      (m.rows.filter fun p => p.ancestor == d) (m.rows.filter fun p =>
        ((m.rows.filter fun p => p.descendant == a).map (·.ancestor)).contains p.ancestor &&
          ((m.rows.filter fun p => p.ancestor == d).map (·.descendant)).contains p.descendant) :=
  ⟨.refl _, .refl _, .refl _⟩

theorem get?_between {a d : NodeId k} {c : Path k}
    (hc : c ∈ Closure.linkCandidates (m.rows.filter fun p => p.descendant == a)
      (m.rows.filter fun p => p.ancestor == d)) :
    (DepthMap.ofRows (m.rows.filter fun p =>
      ((m.rows.filter fun p => p.descendant == a).map (·.ancestor)).contains p.ancestor &&
        ((m.rows.filter fun p => p.ancestor == d).map (·.descendant)).contains p.descendant)).get?
      c.pair = m.get? c.pair := by
  rw [(reads_rows a d m).get?_existing (DepthMap.nodup_rows m) hc, DepthMap.ofRows_rows]

/-- The depths that a new edge shortens are those of rows. -/
theorem stored_of_mem_shorten {a d : NodeId k} {p : Path k} (hp : p ∈ (linkPlan a d m).shorten) :
    ∃ depth, m.get? p.pair = some depth := by
  obtain ⟨depth, hdepth, -⟩ := longer_of_mem_shorten (fun _ hc => get?_between hc) hp
  exact ⟨depth, hdepth⟩

theorem insertPaths_linkPlan (s : Contents k) (a d : NodeId k) :
    s.insertPaths (linkPlan a d s.paths).insert =
      (.ok (), { s with paths := inserted (linkPlan a d s.paths).insert s.paths }) :=
  insertPaths_eq (nodup_insert (Closure.nodup_linkCandidates _ _))
    fun _ hp => free_of_mem_insert (fun _ hc => get?_between hc) hp

/-- A linked edge leaves at each pair the least of the old depth and the way over the edge. -/
theorem get?_linked (a d : NodeId k) (m : DepthMap k) (x y : NodeId k) :
    (linked a d m).get? (x, y) = (m.get? (x, y)).merge min
      ((m.get? (x, a)).bind fun u => (m.get? (d, y)).map fun w => u + 1 + w) := by
  have hover := (reads_rows a d m).get?_linkCandidates (DepthMap.nodup_rows m) (x := x) (y := y)
  rw [DepthMap.ofRows_rows] at hover
  rw [← hover]
  exact get?_planned (Closure.nodup_linkCandidates _ _) fun _ hc => get?_between hc

/-! ## Repair -/

/-- The map after a fix was written. -/
def fixed (fix : Closure.Reconciliation k) (m : DepthMap k) : DepthMap k :=
  updated fix.redepth (inserted fix.missing (deleted fix.stale m))

/-- The map after a repair. -/
def repaired (m : DepthMap k) : DepthMap k :=
  updated (Closure.reconcile m.rows).redepth
    (inserted (Closure.reconcile m.rows).missing (deleted (Closure.reconcile m.rows).stale m))

theorem mem_map_stale : q ∈ (Closure.reconcile rows).stale.map Path.pair ↔
    q ∈ rows.map Path.pair ∧ (Closure.transitiveClosure rows).get? q = none := by
  simp only [List.mem_map, Closure.mem_stale]
  constructor
  · rintro ⟨p, ⟨hp, hnone⟩, rfl⟩
    exact ⟨⟨p, hp, rfl⟩, hnone⟩
  · rintro ⟨⟨p, hp, rfl⟩, hnone⟩
    exact ⟨p, ⟨hp, hnone⟩, rfl⟩

theorem mem_map_missing : q ∈ (Closure.reconcile rows).missing.map Path.pair ↔
    (∃ c, (Closure.transitiveClosure rows).get? q = some c) ∧ q ∉ rows.map Path.pair := by
  rw [List.mem_map]
  constructor
  · rintro ⟨p, hp, rfl⟩
    obtain ⟨hc, hfree⟩ := Closure.mem_missing.1 hp
    exact ⟨⟨_, hc⟩, hfree⟩
  · rintro ⟨⟨c, hc⟩, hfree⟩
    exact ⟨⟨q.1, q.2, c⟩, Closure.mem_missing.2 ⟨hc, hfree⟩, rfl⟩

theorem mem_map_redepth : q ∈ (Closure.reconcile rows).redepth.map Path.pair ↔
    ∃ c, (Closure.transitiveClosure rows).get? q = some c ∧
      ∃ p ∈ rows, p.pair = q ∧ c ≠ p.depth := by
  rw [List.mem_map]
  constructor
  · rintro ⟨p, hp, rfl⟩
    obtain ⟨hc, r, hr, e, hne⟩ := Closure.mem_redepth.1 hp
    exact ⟨_, hc, r, hr, e, hne⟩
  · rintro ⟨c, hc, p, hp, e, hne⟩
    exact ⟨⟨q.1, q.2, c⟩, Closure.mem_redepth.2 ⟨hc, p, hp, e, hne⟩, rfl⟩

/-- The rows that a repair inserts are free once those that it deletes are gone. -/
theorem insertPaths_missing (s : Contents k) :
    (s.deletePaths (Closure.reconcile s.rows).stale).2.insertPaths
        (Closure.reconcile s.rows).missing =
      (.ok (), { s with
        paths := inserted (Closure.reconcile s.rows).missing
          (deleted (Closure.reconcile s.rows).stale s.paths) }) := by
  refine insertPaths_eq (Closure.nodup_missing s.rows) fun p hp => ?_
  have hfree : s.paths.get? p.pair = none :=
    DepthMap.not_mem_map_pair_rows.1 (Closure.mem_missing.1 hp).2
  change (deleted (Closure.reconcile s.rows).stale s.paths).get? p.pair = none
  rw [get?_deleted, hfree, ite_self]

theorem get?_ofRows_missing (hnodup : (rows.map Path.pair).Nodup) :
    (DepthMap.ofRows (Closure.reconcile rows).missing).get? q =
      ((Closure.transitiveClosure rows).get? q).filter fun _ =>
        ((DepthMap.ofRows rows).get? q).isNone := by
  refine Option.ext fun c => ?_
  rw [Option.filter_eq_some_iff, Option.isNone_iff_eq_none, DepthMap.get?_ofRows_eq_none hnodup]
  exact (DepthMap.get?_ofRows (Closure.nodup_missing rows) (p := ⟨q.1, q.2, c⟩)).trans
    Closure.mem_missing

/-- A repair leaves the closure of the edges of the rows. -/
theorem fixed_reconcile (hnodup : (rows.map Path.pair).Nodup) :
    fixed (Closure.reconcile rows) (DepthMap.ofRows rows) = Closure.transitiveClosure rows := by
  classical
  have hdepth : ∀ p ∈ (Closure.reconcile rows).redepth,
      p.depth = ((Closure.transitiveClosure rows).get? p.pair).getD 0 := by
    intro p hp
    rw [(Closure.mem_redepth.1 hp).1]
    rfl
  refine Table.ext_get? fun q => ?_
  rw [fixed, get?_updated
    (f := fun q => ((Closure.transitiveClosure rows).get? q).getD 0) hdepth,
    get?_inserted (Closure.nodup_missing rows), get?_deleted, get?_ofRows_missing hnodup]
  cases hm : (DepthMap.ofRows rows).get? q with
  | none =>
    have hfree := (DepthMap.get?_ofRows_eq_none hnodup).1 hm
    have hunset : q ∉ (Closure.reconcile rows).redepth.map Path.pair := by
      rw [mem_map_redepth]
      rintro ⟨c, -, p, hp, rfl, -⟩
      exact hfree (List.mem_map_of_mem hp)
    rw [if_neg hunset]
    cases (Closure.transitiveClosure rows).get? q <;> simp
  | some d =>
    have hp : ⟨q.1, q.2, d⟩ ∈ rows := (DepthMap.get?_ofRows hnodup).1 hm
    have hstored : q ∈ rows.map Path.pair := List.mem_map_of_mem hp
    cases hc : (Closure.transitiveClosure rows).get? q with
    | none => simp [mem_map_stale, mem_map_redepth, hc, hstored]
    | some c =>
      have hchanged : (∃ p ∈ rows, p.pair = q ∧ c ≠ p.depth) ↔ c ≠ d := by
        constructor
        · rintro ⟨p, hp', rfl, hne⟩
          rwa [Option.some.inj (hm.symm.trans ((DepthMap.get?_ofRows hnodup).2 hp'))]
        · exact fun hne => ⟨_, hp, rfl, hne⟩
      have hset : q ∈ (Closure.reconcile rows).redepth.map Path.pair ↔ c ≠ d := by
        rw [mem_map_redepth, ← hchanged, hc]
        simp
      by_cases he : c = d <;> simp [mem_map_stale, hset, hc, he]

/-- The writes that repair rows leave the closure of their edges. -/
theorem repaired_eq (m : DepthMap k) : repaired m = Closure.transitiveClosure m.rows := by
  have hfixed := fixed_reconcile (DepthMap.nodup_rows m)
  rw [DepthMap.ofRows_rows] at hfixed
  exact hfixed

end Lineage.Contents

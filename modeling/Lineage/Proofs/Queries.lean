import Lineage.Proofs.Edges

/-!
# Graph queries answer by the edges

The queries read rows: those of a positive depth say what lies below a node, and those of depth 1
which nodes have something below them. Both agree with the edges that the operations so far have
left, whatever ways the rows were written in.

* `Contents.Sources`: some row of a positive depth starts at a node. It does iff an edge does
  (`Contents.Holds.sources_iff`).
* `Work.descendants_ascending`, `Work.parents_apply`, `Work.view_eq`: the queries within a
  transaction.
* `World.run_queried`: the queries after a run, by the edges that it left.
* `World.query_cut_off`: on a locked store there is no answer.
-/

open Relation

namespace Lineage

variable {k : Kind}

/-! ## Rows -/

namespace Contents

/-- Some row of a positive depth starts at a node. -/
def Sources (s : Contents k) (x : NodeId k) : Prop := ∃ p ∈ s.rows, p.ancestor = x ∧ 1 ≤ p.depth

theorem Holds.sources_iff {s : Contents k} {g : Dag k} (h : s.Holds g) {x : NodeId k} :
    s.Sources x ↔ ∃ y, Closure.Edge s.rows x y := by
  constructor
  · rintro ⟨⟨_, y, c⟩, hp, rfl, hc⟩
    obtain ⟨z, e, -⟩ := TransGen.head'_iff.1 (h.exists_row_iff.1 ⟨c, DepthMap.mk_mem_rows.1 hp, hc⟩)
    exact ⟨z, e⟩
  · rintro ⟨y, e⟩
    exact ⟨_, e, rfl, UInt32.le_refl 1⟩

end Contents

/-! ## Queries within a transaction -/

namespace Work

variable {s : MemoryStore k} (hs : s.refusal = none) {t : Contents k}

include hs

theorem descendants_ascending {g : Dag k} (h : t.Holds g) {ids l : List (NodeId k)}
    {t' : Contents k} (hl : descendants ids s t = .ok (l, t')) :
    l.Pairwise fun x y => x.toInt < y.toInt := by
  unfold descendants at hl
  simp only [bind_apply, ask_apply hs, Contents.perform, settled_ok, ok_bind, pure_apply] at hl
  obtain ⟨rfl, -⟩ := Prod.mk.inj (Except.ok.inj hl)
  refine List.pairwise_map.2 (List.pairwise_filterMap.2 ?_)
  refine (KeySet.keys_ascending _).imp fun {x y} hlt m hm n hn => ?_
  have hx : m.id = x := h.id_of_table (show (t.table .active).get? x = some m from hm)
  have hy : n.id = y := h.id_of_table (show (t.table .active).get? y = some n from hn)
  rwa [hx, hy]

theorem parents_apply (ids : List (NodeId k)) :
    ∃ l, ask (.ancestorsWithDescendants ids) .store s t = .ok (l, t) ∧
      (l.Pairwise fun x y => x.toInt < y.toInt) ∧
      ∀ x, x ∈ l ↔ x ∈ ids ∧ ∃ y, Closure.Edge t.rows x y := by
  rw [ask_apply hs]
  refine ⟨_, rfl, KeySet.keys_ascending _, fun x => ?_⟩
  simp only [KeySet.mem_keys_ofList, List.mem_map, List.mem_filter, Path.isDirect,
    Bool.and_eq_true, beq_iff_eq, List.contains_iff_mem]
  constructor
  · rintro ⟨⟨_, y, _⟩, ⟨hp, rfl, hx⟩, rfl⟩
    exact ⟨hx, y, hp⟩
  · rintro ⟨hx, y, e⟩
    exact ⟨_, ⟨e, rfl, hx⟩, rfl⟩

theorem view_eq (node : Node k) : view node s t = .ok (t.viewOf node, t) := by
  obtain ⟨l, hl, -, hmem⟩ := parents_apply hs (t := t) [node.id]
  unfold view
  rw [bind_apply, hl]
  have hflag : (⟨node, !l.isEmpty⟩ : NodeView k) = t.viewOf node := by
    refine congrArg (NodeView.mk node) (Bool.eq_iff_iff.2 ?_)
    rw [Bool.not_eq_true', List.isEmpty_eq_false_iff_exists_mem]
    refine Iff.trans ?_ Contents.hasDescendant_viewOf.symm
    simp only [hmem, List.mem_singleton, exists_eq_left]
  exact congrArg (fun v => Except.ok (v, t)) hflag

end Work

/-! ## Queries -/

namespace Hierarchy

variable {h : Hierarchy k}

section Open

variable {g : Dag k} (hh : h.Holds g)

include hh

/-- The nodes below some nodes are the active ones to which edges lead from one of them. -/
theorem descendantIds_eq (ids : List (NodeId k)) :
    ∃ l, h.descendantIds ids = .ok l ∧ (l.Pairwise fun x y => x.toInt < y.toInt) ∧
      ∀ y, y ∈ l ↔ h.store.contents.Active y ∧
        ∃ x ∈ ids, TransGen (Closure.Edge h.store.contents.rows) x y := by
  unfold descendantIds
  cases ids with
  | nil => exact ⟨[], rfl, .nil, by simp⟩
  | cons x rest =>
    obtain ⟨l, hw, hmem⟩ := Work.descendants_apply hh.refusal hh.contents (x :: rest)
    refine ⟨l, look_eq_ok hh hw, Work.descendants_ascending hh.refusal hh.contents hw, fun y => ?_⟩
    rw [hmem]
    simp only [Contents.Below]
    tauto

/-- Those of some nodes that have descendants are the ones at which an edge starts. -/
theorem parents_eq (ids : List (NodeId k)) :
    ∃ l, h.parents ids = .ok l ∧ (l.Pairwise fun x y => x.toInt < y.toInt) ∧
      ∀ x, x ∈ l ↔ x ∈ ids ∧ ∃ y, Closure.Edge h.store.contents.rows x y := by
  unfold parents
  cases ids with
  | nil => exact ⟨[], rfl, .nil, by simp⟩
  | cons x rest =>
    obtain ⟨l, hw, hascending, hmem⟩ :=
      Work.parents_apply hh.refusal (t := h.store.contents) (x :: rest)
    exact ⟨l, look_eq_ok hh hw, hascending, hmem⟩

/-- The flag of a view says whether a row of a positive depth starts at its node. -/
theorem look_view (node : Node k) : ∃ v, h.look (Work.view node) = .ok v ∧ v.node = node ∧
    (v.hasDescendant = true ↔ h.store.contents.Sources node.id) := by
  refine ⟨_, look_eq_ok hh (Work.view_eq hh.refusal node), rfl, ?_⟩
  rw [Contents.hasDescendant_viewOf, hh.contents.sources_iff]

theorem look_views (nodes : List (Node k)) : ∃ vs, h.look (Work.views nodes) = .ok vs ∧
    vs.map (·.node) = nodes ∧
    ∀ v ∈ vs, (v.hasDescendant = true ↔ h.store.contents.Sources v.node.id) := by
  refine ⟨_, look_eq_ok hh (Work.views_apply hh.refusal nodes _), ?_, fun v hv => ?_⟩
  · rw [List.map_map]
    exact List.map_id nodes
  · obtain ⟨node, -, rfl⟩ := List.mem_map.1 hv
    rw [Contents.hasDescendant_viewOf, hh.contents.sources_iff]
    rfl

end Open

section Locked

variable (hr : h.store.refusal = none) (hl : h.store.locked = true) {ids : List (NodeId k)}
  (hids : ids ≠ [])

include hr hl hids

theorem descendantIds_locked :
    h.descendantIds ids = .error (.store MemoryStore.lockedError) := by
  rw [descendantIds, if_neg (by simpa using hids), look_of_locked hr hl]

theorem parents_locked : h.parents ids = .error (.store MemoryStore.lockedError) := by
  rw [parents, if_neg (by simpa using hids), look_of_locked hr hl]

end Locked

end Hierarchy

/-! ## Queries after a run -/

/-- After every run from an empty store the queries are answered by the edges that the run left,
unless the store is locked; then a query about some nodes fails.

Below nodes lie the active ones that edges lead to from one of them, perhaps over archived ones; a
node has descendants iff an edge starts at it, or a row of a positive depth. Lists ascend strictly,
whatever is asked for twice, or is not active, or does not exist. -/
theorem World.run_queried (h : Hierarchy k) (hstart : h.store = {}) (hrival : h.rival = none)
    (events : List (Event k))
    (hfits : ∀ n, (run ⟨h, []⟩ (events.take n)).contents.Fits) :
    let w := run ⟨h, []⟩ events
    let E := fun x y => Linked x y ⟨h, []⟩ events
    (w.hierarchy.store.locked = false →
      (∀ x y, Closure.Edge w.contents.rows x y ↔ E x y) ∧
      (∀ ids, ∃ l, w.hierarchy.descendantIds ids = .ok l ∧
        (l.Pairwise fun x y => x.toInt < y.toInt) ∧
        ∀ y, y ∈ l ↔ w.contents.Active y ∧ ∃ x ∈ ids, TransGen E x y) ∧
      (∀ ids, ∃ l, w.hierarchy.parents ids = .ok l ∧
        (l.Pairwise fun x y => x.toInt < y.toInt) ∧
        ∀ x, x ∈ l ↔ x ∈ ids ∧ ∃ y, E x y) ∧
      (∀ node, ∃ v, w.hierarchy.look (Work.view node) = .ok v ∧ v.node = node ∧
        (v.hasDescendant = true ↔ w.contents.Sources node.id)) ∧
      (∀ nodes, ∃ vs, w.hierarchy.look (Work.views nodes) = .ok vs ∧ vs.map (·.node) = nodes ∧
        ∀ v ∈ vs, (v.hasDescendant = true ↔ w.contents.Sources v.node.id)) ∧
      ∀ x, w.contents.Sources x ↔ ∃ y, E x y) ∧
    (w.hierarchy.store.locked = true → ∀ ids, ids ≠ [] →
      w.hierarchy.descendantIds ids = .error (.store MemoryStore.lockedError) ∧
      w.hierarchy.parents ids = .error (.store MemoryStore.lockedError)) := by
  intro w E
  have hr : w.hierarchy.store.refusal = none := by rw [run_refusal, hstart]
  refine ⟨fun hopen => ?_, fun hl ids hids =>
    ⟨Hierarchy.descendantIds_locked hr hl hids, Hierarchy.parents_locked hr hl hids⟩⟩
  have hempty : h.Holds {} := by
    refine ⟨?_, ?_, ?_⟩ <;> rw [hstart]
    exact .empty
  obtain ⟨g, hh, hedges⟩ := run_edges (w := ⟨h, []⟩) hempty hrival events hopen fun l hl =>
    List.prefix_iff_eq_take.1 hl ▸ hfits l.length
  have hrows : ∀ x y, Closure.Edge w.contents.rows x y ↔ E x y := by
    intro x y
    rw [contents, hh.contents.edge_iff, hedges]
    exact or_iff_left fun hold => hold.1
  have hE : Closure.Edge w.hierarchy.store.contents.rows = E :=
    funext₂ fun x y => propext (hrows x y)
  refine ⟨hrows, fun ids => ?_, fun ids => ?_, Hierarchy.look_view hh, Hierarchy.look_views hh,
    fun x => ?_⟩
  · rw [← hE]
    exact Hierarchy.descendantIds_eq hh ids
  · simp only [← hrows]
    exact Hierarchy.parents_eq hh ids
  · simp only [← hrows]
    exact hh.contents.sources_iff

/-- Three nodes in a row and a fourth one, from which the edge is taken away; the middle of the row
is archived. -/
def thinned : List (Event ⟨"tag"⟩) :=
  [.add { id := some ⟨1⟩, code := "a", name := "a" },
    .add { id := some ⟨2⟩, code := "b", name := "b" },
    .add { id := some ⟨3⟩, code := "c", name := "c" },
    .add { id := some ⟨4⟩, code := "d", name := "d" }, .link ⟨2⟩ ⟨3⟩, .link ⟨1⟩ ⟨2⟩,
    .link ⟨1⟩ ⟨4⟩, .unlink ⟨1⟩ ⟨4⟩, .archive ⟨2⟩].map (.serve .calm)

/-- The end of the row lies below its beginning, the archived node and the fourth one do not. -/
theorem World.run_queried_thinned :
    let w := run ⟨{ cache := .memory {} }, []⟩ thinned
    let E := fun x y => Linked x y ⟨{ cache := .memory {} }, []⟩ thinned
    w.hierarchy.descendantIds [⟨1⟩, ⟨9⟩, ⟨1⟩] = .ok [⟨3⟩] ∧ TransGen E ⟨1⟩ ⟨3⟩ ∧ ¬ E ⟨1⟩ ⟨4⟩ ∧
      w.hierarchy.parents [⟨2⟩, ⟨1⟩, ⟨9⟩, ⟨1⟩] = .ok [⟨1⟩, ⟨2⟩] := by
  intro w E
  have hfits := forall_take (l := thinned)
    (P := fun events => (run ⟨{ cache := .memory {} }, []⟩ events).contents.Fits)
    (by unfold Contents.Fits; decide +kernel)
  obtain ⟨hedges, hbelow, -⟩ :=
    (run_queried { cache := .memory {} } rfl rfl thinned hfits).1 (by decide +kernel)
  obtain ⟨l, hl, -, hmem⟩ := hbelow [⟨1⟩]
  have hthree : w.hierarchy.descendantIds [⟨1⟩] = .ok [⟨3⟩] := by decide +kernel
  obtain rfl := Except.ok.inj (hl.symm.trans hthree)
  obtain ⟨-, x, hx, hpath⟩ := (hmem ⟨3⟩).1 List.mem_cons_self
  obtain rfl := List.mem_singleton.1 hx
  have hgone : ¬ Closure.Edge w.contents.rows ⟨1⟩ ⟨4⟩ := by
    unfold Closure.Edge
    decide +kernel
  exact ⟨by decide +kernel, hpath, fun e => hgone ((hedges ⟨1⟩ ⟨4⟩).2 e), by decide +kernel⟩

/-- Nothing lies below the node, but on the locked store there is no list to say so. -/
theorem World.query_cut_off :
    let w := run ⟨stalling (.memory {}), []⟩ stalled
    (∀ y, ¬ Closure.Edge w.contents.rows ⟨1⟩ y) ∧
      w.hierarchy.descendantIds [⟨1⟩] = .error (.store MemoryStore.lockedError) ∧
      ¬ ∃ l, w.hierarchy.descendantIds [⟨1⟩] = .ok l ∧ (l.Pairwise fun x y => x.toInt < y.toInt) ∧
        ∀ y, y ∈ l ↔ w.contents.Active y ∧
          ∃ x ∈ [⟨1⟩], TransGen (Closure.Edge w.contents.rows) x y := by
  intro w
  have hrows : w.contents.rows = [.self ⟨1⟩] := by decide +kernel
  have hanswer : w.hierarchy.descendantIds [⟨1⟩] = .error (.store MemoryStore.lockedError) := by
    decide +kernel
  refine ⟨fun y e => ?_, hanswer, ?_⟩
  · rw [Closure.Edge, hrows] at e
    simp [Path.self, Path.direct] at e
  · rintro ⟨l, hl, -⟩
    rw [hanswer] at hl
    cases hl

end Lineage

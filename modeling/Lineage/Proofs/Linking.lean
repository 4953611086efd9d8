import Lineage.Proofs.Closes

/-!
# Linking an edge and starting over

A store that links an edge does not compute its closure again: it reads the rows at the two ends
of the edge and writes the plan that they give. The module says that the outcome is the same.

* `Closed rows node E`: the rows are those of the closure of a graph.
* `Reads.planned_closes`: the rows with the plan written close the graph with the new edge.
* `link_recomputes`: they are what the search finds from the old edges and the new one; which pairs
  the plan is about, and when it is empty.
-/

open Relation

namespace Lineage.Closure

variable {k : Kind} {rows upper lower existing : List (Path k)} {node : NodeId k → Prop}
  {E : NodeId k → NodeId k → Prop} {a d x y : NodeId k}

/-- The rows are one for each pair of nodes that edges connect, at their distance. -/
structure Closed (rows : List (Path k)) (node : NodeId k → Prop)
    (E : NodeId k → NodeId k → Prop) : Prop where
  once : (rows.map Path.pair).Nodup
  ends : ∀ x y, E x y → node x ∧ node y
  row : ∀ x y n, (∃ depth, ⟨x, y, depth⟩ ∈ rows ∧ depth.toNat = n) ↔ node x ∧ IsDistance E n x y

namespace Closed

/-- The listing of a depth map that closes a graph. -/
theorem of_closes {m : DepthMap k} (h : m.Closes node E) : Closed m.rows node E where
  once := DepthMap.nodup_rows m
  ends := h.ends
  row x y n := by
    rw [← h.distance, DepthMap.distance?_eq_some]
    exact exists_congr fun depth => and_congr_left' DepthMap.mk_mem_rows

variable (h : Closed rows node E)

include h

theorem closes : (DepthMap.ofRows rows).Closes node E where
  ends := h.ends
  distance x y n := by
    rw [DepthMap.distance?_eq_some, ← h.row]
    exact exists_congr fun depth =>
      and_congr_left' (DepthMap.get?_ofRows h.once (p := ⟨x, y, depth⟩))

theorem self_iff : ⟨x, y, 0⟩ ∈ rows ↔ node x ∧ x = y := by
  rw [← h.closes.get?_eq_zero]
  exact (DepthMap.get?_ofRows h.once (p := ⟨x, y, 0⟩)).symm

theorem edge_iff : Edge rows x y ↔ Loopless E x y := by
  rw [← h.closes.get?_eq_one]
  exact (DepthMap.get?_ofRows h.once (p := Path.direct x y)).symm

/-- A shortest walk takes as many rows as its half squared. -/
theorem square_le_length (hx : node x) {n : Nat} (hn : IsDistance E n x y) :
    (n + 1) / 2 * ((n + 1) / 2) ≤ rows.length := by
  have hle := hn.square_le_card (rows.map Path.pair).toFinset fun u v hu hv =>
    List.mem_toFinset.2 ((DepthMap.mem_map_pair h.once).2
      (h.closes.connected.2 ⟨h.closes.node_of_reflTransGen hx hu, hv⟩))
  rwa [List.toFinset_card_of_nodup h.once, List.length_map] at hle

/-- Two shortest walks and an edge between them fit a depth, if the rows fit an allocation. -/
theorem over_lt_size (hfits : 24 * rows.length < 2 ^ 63) (hd : node d) {i j : Nat} (hx : node x)
    (hi : IsDistance E i x a) (hj : IsDistance E j d y) : i + 1 + j < UInt32.size := by
  have hshort : ∀ {n u v}, node u → IsDistance E n u v → n < 2 * 2 ^ 30 := by
    intro n u v hu hn
    have hle := h.square_le_length hu hn
    exact lt_of_square_lt (by omega)
  have hi := hshort hx hi
  have hj := hshort hd hj
  simp only [UInt32.size]
  omega

end Closed

/-! ## Writing the plan -/

namespace Reads

variable (hread : Reads rows a d upper lower existing) (hrows : Closed rows node E)

include hread hrows

/-- The plan leaves at each pair the least of the old depth and the way over the edge. -/
theorem get?_planned (x y : NodeId k) :
    (Contents.planned (planLink (linkCandidates upper lower) existing)
      (DepthMap.ofRows rows)).get? (x, y) =
      ((DepthMap.ofRows rows).get? (x, y)).merge min
        (((DepthMap.ofRows rows).get? (x, a)).bind fun u =>
          ((DepthMap.ofRows rows).get? (d, y)).map fun w => u + 1 + w) := by
  rw [← hread.get?_linkCandidates hrows.once]
  exact Contents.get?_planned (nodup_linkCandidates _ _) fun _ hc =>
    hread.get?_existing hrows.once hc

variable (hfits : 24 * rows.length < 2 ^ 63) (ha : node a) (hd : node d)
  (hda : ¬ ReflTransGen E d a)

include hfits ha hd hda

theorem planned_closes :
    (Contents.planned (planLink (linkCandidates upper lower) existing)
      (DepthMap.ofRows rows)).Closes node (Joined E a d) :=
  hrows.closes.link (hread.get?_planned hrows) hd hda (hrows.over_lt_size hfits hd) ha

/-- The search finds the same from any rows that have the old edges and the new one, if each node
owns a row of depth 0 there or is an end of an edge. -/
theorem planned_eq_transitiveClosure {base : List (Path k)}
    (hedges : ∀ x y, Edge base x y ↔ Edge rows x y ∨ x = a ∧ y = d)
    (howned : ∀ x y, ⟨x, y, 0⟩ ∈ base → node x)
    (hcovered : ∀ x, node x →
      ⟨x, x, 0⟩ ∈ base ∨ (∃ y, Edge base x y) ∨ ∃ y, Edge base y x) :
    Contents.planned (planLink (linkCandidates upper lower) existing) (DepthMap.ofRows rows) =
      transitiveClosure base := by
  have hends : ∀ x y, Edge base x y → node x ∧ node y := by
    intro x y e
    rcases (hedges x y).1 e with e | ⟨rfl, rfl⟩
    · exact hrows.ends x y (hrows.edge_iff.1 e).1
    · exact ⟨ha, hd⟩
  apply (hread.planned_closes hrows hfits ha hd hda).eq_transitiveClosure
  · intro x
    rw [mem_nodes]
    constructor
    · rintro (⟨y, hx⟩ | ⟨y, e⟩ | ⟨y, e⟩)
      · exact howned x y hx
      · exact (hends x y e).1
      · exact (hends y x e).2
    · intro hx
      exact (hcovered x hx).imp_left fun hself => ⟨x, hself⟩
  · intro x y
    simp only [Loopless, hedges, hrows.edge_iff, Joined]
    tauto

/-- The search may start from all old rows of depth 0 and 1, with the new edge. -/
theorem planned_eq_of_base {base : List (Path k)}
    (hbase : ∀ p : Path k, p.depth ≤ 1 → (p ∈ base ↔ p ∈ rows ∨ p = Path.direct a d)) :
    Contents.planned (planLink (linkCandidates upper lower) existing) (DepthMap.ofRows rows) =
      transitiveClosure base := by
  have howned : ∀ x y, ⟨x, y, 0⟩ ∈ base ↔ node x ∧ x = y := by
    intro x y
    rw [hbase ⟨x, y, 0⟩ UInt32.zero_le, ← hrows.self_iff]
    simp [Path.direct]
  apply hread.planned_eq_transitiveClosure hrows hfits ha hd hda
  · intro x y
    rw [Edge, hbase _ (UInt32.le_refl 1)]
    simp [Edge, Path.direct]
  · exact fun x y h => ((howned x y).1 h).1
  · exact fun x hx => .inl ((howned x x).2 ⟨hx, rfl⟩)

/-- It may start from the edges alone if each node is an end of one. -/
theorem planned_eq_of_covered (hE : Acyclic E)
    (hcovered : ∀ x, node x → ∃ y, Joined E a d x y ∨ Joined E a d y x) :
    Contents.planned (planLink (linkCandidates upper lower) existing) (DepthMap.ofRows rows) =
      transitiveClosure (rows.filter Path.isDirect ++ [Path.direct a d]) := by
  have hedges : ∀ x y, Edge (rows.filter Path.isDirect ++ [Path.direct a d]) x y ↔
      Edge rows x y ∨ x = a ∧ y = d := by
    intro x y
    simp [Edge, Path.direct, Path.isDirect]
  have hjoined : ∀ x y, Joined E a d x y →
      Edge (rows.filter Path.isDirect ++ [Path.direct a d]) x y := by
    rintro x y (e | e)
    · refine (hedges x y).2 (.inl (hrows.edge_iff.2 ⟨e, ?_⟩))
      rintro rfl
      exact hE.not_edge e
    · exact (hedges x y).2 (.inr e)
  apply hread.planned_eq_transitiveClosure hrows hfits ha hd hda hedges
  · intro x y h
    simp [Path.direct, Path.isDirect] at h
  · intro x hx
    right
    obtain ⟨y, e | e⟩ := hcovered x hx
    · exact .inl ⟨y, hjoined x y e⟩
    · exact .inr ⟨y, hjoined y x e⟩

/-- The plan is empty iff the edge is there. -/
theorem isEmpty_iff : (planLink (linkCandidates upper lower) existing).isEmpty ↔ E a d := by
  have hplanned := hread.planned_closes hrows hfits ha hd hda
  have hexisting : ∀ c ∈ linkCandidates upper lower, (DepthMap.ofRows existing).get? c.pair =
      (DepthMap.ofRows rows).get? c.pair := fun _ hc => hread.get?_existing hrows.once hc
  have hne : a ≠ d := fun e => hda (e ▸ .refl)
  rw [← Contents.planned_eq_self_iff (nodup_linkCandidates _ _) hexisting]
  constructor
  · intro h
    have hedge := hplanned.get?_eq_one.2 ⟨.inr ⟨rfl, rfl⟩, hne⟩
    rw [h] at hedge
    exact (hrows.closes.get?_eq_one.1 hedge).1
  · intro h
    have hjoined : Joined E a d = E := by
      funext x y
      apply propext
      constructor
      · rintro (e | ⟨rfl, rfl⟩)
        · exact e
        · exact h
      · exact .inl
    rw [hjoined] at hplanned
    exact hplanned.unique hrows.closes

end Reads

/-- Let the rows be the closure of an acyclic graph in which `d` does not reach `a`. The plan of
the edge from `a` to `d` turns them into the closure that the search finds from the rows of the
old edges, the nodes' own rows and the new edge; the nodes' own rows may be left out if each node
is an end of an edge. The plan inserts pairs without a row and shortens rows, each pair once, and
is empty iff the edge is there. A row takes 24 bytes, and no allocation has 2⁶³. -/
theorem link_recomputes (hrows : Closed rows node E) (hE : Acyclic E)
    (hfits : 24 * rows.length < 2 ^ 63) (ha : node a) (hd : node d) (hda : ¬ ReflTransGen E d a)
    (hread : Reads rows a d upper lower existing) :
    let plan := planLink (linkCandidates upper lower) existing
    let written := Contents.planned plan (DepthMap.ofRows rows)
    (∀ base : List (Path k),
      (∀ p : Path k, p.depth ≤ 1 → (p ∈ base ↔ p ∈ rows ∨ p = Path.direct a d)) →
        written = transitiveClosure base) ∧
    ((∀ x, node x → ∃ y, Joined E a d x y ∨ Joined E a d y x) →
      written = transitiveClosure (rows.filter Path.isDirect ++ [Path.direct a d])) ∧
    (∀ p ∈ plan.insert, p.pair ∉ rows.map Path.pair) ∧
    (∀ p ∈ plan.shorten, ∃ q ∈ rows, q.pair = p.pair ∧ p.depth < q.depth) ∧
    ((plan.insert ++ plan.shorten).map Path.pair).Nodup ∧
    (plan.isEmpty ↔ E a d) := by
  intro plan written
  have hexisting : ∀ c ∈ linkCandidates upper lower, (DepthMap.ofRows existing).get? c.pair =
      (DepthMap.ofRows rows).get? c.pair := fun _ hc => hread.get?_existing hrows.once hc
  refine ⟨fun base hbase => hread.planned_eq_of_base hrows hfits ha hd hda hbase,
    fun hcovered => hread.planned_eq_of_covered hrows hfits ha hd hda hE hcovered,
    fun p hp => ?_, fun p hp => ?_, Contents.nodup_planLink (nodup_linkCandidates _ _),
    hread.isEmpty_iff hrows hfits ha hd hda⟩
  · rw [← DepthMap.get?_ofRows_eq_none hrows.once]
    exact Contents.free_of_mem_insert hexisting hp
  · obtain ⟨depth, hdepth, hlt⟩ := Contents.longer_of_mem_shorten hexisting hp
    have hq := (DepthMap.get?_ofRows hrows.once (p := ⟨p.ancestor, p.descendant, depth⟩)).1 hdepth
    exact ⟨_, hq, rfl, hlt⟩

/-- Two chains, of three edges and of one, that end at one node. -/
def fork : List (Path ⟨"tag"⟩) :=
  [.direct ⟨1⟩ ⟨2⟩, .direct ⟨2⟩ ⟨3⟩, .direct ⟨3⟩ ⟨5⟩, .direct ⟨4⟩ ⟨5⟩]

/-- An edge from the top of the long chain to the top of the short one is a new pair and a
shortcut to the end of both. -/
theorem link_recomputes_fork :
    let rows := (transitiveClosure fork).rows
    let upper := rows.filter fun p => p.descendant == ⟨1⟩
    let lower := rows.filter fun p => p.ancestor == ⟨4⟩
    let plan := planLink (linkCandidates upper lower) (rows.filter fun p =>
      (upper.map (·.ancestor)).contains p.ancestor &&
        (lower.map (·.descendant)).contains p.descendant)
    plan = { insert := [⟨⟨1⟩, ⟨4⟩, 1⟩], shorten := [⟨⟨1⟩, ⟨5⟩, 2⟩] } ∧
      Contents.planned plan (DepthMap.ofRows rows) =
        transitiveClosure (rows.filter Path.isDirect ++ [Path.direct ⟨1⟩ ⟨4⟩]) := by
  have hcloses : (transitiveClosure fork).Closes (· ∈ (nodes fork).keys) (Edge fork) :=
    transitiveClosure_closes (by decide +kernel)
  have hE : Acyclic (Edge fork) := by
    apply Acyclic.of_lt (f := NodeId.toInt)
    intro x y e
    simp only [Edge, fork, List.mem_cons, Path.direct, Path.mk.injEq] at e
    obtain ⟨rfl, rfl, -⟩ | ⟨rfl, rfl, -⟩ | ⟨rfl, rfl, -⟩ | ⟨rfl, rfl, -⟩ | e := e
    all_goals first | decide | cases e
  have hda : ¬ ReflTransGen (Edge fork) ⟨4⟩ ⟨1⟩ := by
    intro h
    obtain ⟨c, hc⟩ := hcloses.connected.2 ⟨by decide +kernel, h⟩
    have hnone : (transitiveClosure fork).get? (⟨4⟩, ⟨1⟩) = none := by decide +kernel
    rw [hnone] at hc
    cases hc
  have hcovered : ∀ x, x ∈ (nodes fork).keys →
      ∃ y, Joined (Edge fork) ⟨1⟩ ⟨4⟩ x y ∨ Joined (Edge fork) ⟨1⟩ ⟨4⟩ y x := by
    intro x hx
    rcases mem_nodes.1 hx with ⟨y, h⟩ | ⟨y, e⟩ | ⟨y, e⟩
    · simp [fork, Path.direct] at h
    · exact ⟨y, .inl (.inl e)⟩
    · exact ⟨y, .inr (.inl e)⟩
  have hlinked := link_recomputes (.of_closes hcloses) hE (by decide +kernel)
    (by decide +kernel) (by decide +kernel) hda
    (Contents.reads_rows ⟨1⟩ ⟨4⟩ (transitiveClosure fork))
  exact ⟨by decide +kernel, hlinked.2.1 hcovered⟩

end Lineage.Closure

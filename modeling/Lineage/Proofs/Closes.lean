import Mathlib.Data.Finset.Dedup
import Lineage.Proofs.Rows

/-!
# Depth maps that close a graph

`m.Closes node E` says that the depth map `m` holds an entry for each pair of nodes that edges of
`E` connect, and that it is their distance. Loops and cycles are allowed.

* `Closes.eq_transitiveClosure`: such a map is the closure of any rows with the same nodes and,
  loops apart, the same edges, among them its own.
* `Closes.insert`, `Closes.link`: what a new node and a new edge do to such a map.
* `Closure.transitiveClosure_closes`: the closure of rows closes their edges, if it fits a memory.

A depth has 32 bits. Distances fit as long as the rows fit a memory (`rowLimit`), since a shortest
walk connects many pairs.
-/

open Relation

namespace Lineage

variable {k : Kind}

/-! ## Depths as numbers -/

/-- The distance of a pair of nodes that a row records. -/
def DepthMap.distance? (m : DepthMap k) (x y : NodeId k) : Option Nat :=
  (m.get? (x, y)).map UInt32.toNat

theorem DepthMap.distance?_eq_some {m : DepthMap k} {x y : NodeId k} {n : Nat} :
    m.distance? x y = some n ↔ ∃ d, m.get? (x, y) = some d ∧ d.toNat = n := by
  rw [distance?, Option.map_eq_some_iff]

theorem merge_min_eq_some {a b : Option Nat} {n : Nat} :
    a.merge min b = some n ↔
      (a = some n ∨ b = some n) ∧ (∀ m, a = some m → n ≤ m) ∧ ∀ m, b = some m → n ≤ m := by
  cases a <;> cases b <;> simp <;> omega

theorem map_toNat_merge_min (a b : Option UInt32) :
    (a.merge min b).map UInt32.toNat = (a.map UInt32.toNat).merge min (b.map UInt32.toNat) := by
  cases a <;> cases b <;> simp [Std.min_eq_if, UInt32.le_iff_toNat_le]
  split <;> rfl

/-- There is a least depth if there is an old one, or one over an edge. -/
theorem exists_merge_min_iff {a b c : Option UInt32} :
    (∃ d, a.merge min (b.bind fun u => c.map fun w => u + 1 + w) = some d) ↔
      (∃ d, a = some d) ∨ (∃ u, b = some u) ∧ ∃ w, c = some w := by
  cases a <;> cases b <;> cases c <;> simp

theorem toNat_over {u w : UInt32} (h : u.toNat + 1 + w.toNat < UInt32.size) :
    (u + 1 + w).toNat = u.toNat + 1 + w.toNat := by
  simp only [UInt32.size] at h
  rw [UInt32.toNat_add, UInt32.toNat_add, UInt32.toNat_one]
  omega

/-- A number of rows that no memory holds: with three words to a row they exceed its addresses. -/
def rowLimit : Nat := 2 ^ 62

theorem lt_of_square_lt {n b : Nat} (h : (n + 1) / 2 * ((n + 1) / 2) < b * b) : n < 2 * b := by
  have := Nat.mul_self_lt_mul_self_iff.1 h
  omega

theorem lt_size_of_square_le {n rows : Nat} (h : (n + 1) / 2 * ((n + 1) / 2) ≤ rows)
    (hrows : rows < rowLimit) : n < UInt32.size := by
  have hlt : (n + 1) / 2 * ((n + 1) / 2) < 2 ^ 31 * 2 ^ 31 := by
    simp only [rowLimit] at hrows
    omega
  have := lt_of_square_lt hlt
  simp only [UInt32.size]
  omega

namespace DepthMap

/-- The map holds the pairs of nodes that edges connect, each at its distance, and no others. -/
structure Closes (m : DepthMap k) (node : NodeId k → Prop) (E : NodeId k → NodeId k → Prop) :
    Prop where
  ends : ∀ x y, E x y → node x ∧ node y
  distance : ∀ x y n, m.distance? x y = some n ↔ node x ∧ IsDistance E n x y

namespace Closes

variable {m m' : DepthMap k} {node : NodeId k → Prop} {E : NodeId k → NodeId k → Prop}
  {x y a d : NodeId k} (h : m.Closes node E)

include h

theorem node_of_reflTransGen (hx : node x) (hxy : ReflTransGen E x y) : node y := by
  rcases ReflTransGen.cases_tail hxy with rfl | ⟨z, -, e⟩
  · exact hx
  · exact (h.ends z y e).2

/-- A pair has a row iff edges connect it. -/
theorem connected : (∃ c, m.get? (x, y) = some c) ↔ node x ∧ ReflTransGen E x y := by
  rw [reflTransGen_iff_isDistance]
  constructor
  · rintro ⟨c, hc⟩
    obtain ⟨hx, hd⟩ := (h.distance x y c.toNat).1 (distance?_eq_some.2 ⟨c, hc, rfl⟩)
    exact ⟨hx, _, hd⟩
  · rintro ⟨hx, n, hd⟩
    obtain ⟨c, hc, -⟩ := distance?_eq_some.1 ((h.distance x y n).2 ⟨hx, hd⟩)
    exact ⟨c, hc⟩

theorem get?_eq_some {c : UInt32} :
    m.get? (x, y) = some c ↔ node x ∧ IsDistance E c.toNat x y := by
  rw [← h.distance, distance?_eq_some]
  exact ⟨fun hc => ⟨c, hc, rfl⟩, fun ⟨c', hc, e⟩ => UInt32.toNat_inj.1 e ▸ hc⟩

/-- Rows of depth 0 are those of a node with itself. -/
theorem get?_eq_zero : m.get? (x, y) = some 0 ↔ node x ∧ x = y := by
  rw [h.get?_eq_some]
  exact and_congr_right' IsDistance.zero_iff

/-- Rows of depth 1 are the edges that are no loops. -/
theorem get?_eq_one : m.get? (x, y) = some 1 ↔ Loopless E x y := by
  rw [h.get?_eq_some]
  exact (and_congr_right' IsDistance.one_iff).trans
    ⟨fun e => e.2, fun e => ⟨(h.ends x y e.1).1, e⟩⟩

theorem edge_iff : Closure.Edge m.rows x y ↔ Loopless E x y :=
  mk_mem_rows.trans h.get?_eq_one

theorem loopless_edge_iff : Loopless (Closure.Edge m.rows) x y ↔ Loopless E x y := by
  rw [Loopless, h.edge_iff, Loopless, and_assoc, and_self]

theorem mem_nodes : x ∈ (Closure.nodes m.rows).keys ↔ node x := by
  rw [Closure.mem_nodes]
  simp only [h.edge_iff, mk_mem_rows, h.get?_eq_zero]
  constructor
  · rintro (⟨y, hx, -⟩ | ⟨y, e, -⟩ | ⟨y, e, -⟩)
    · exact hx
    · exact (h.ends x y e).1
    · exact (h.ends y x e).2
  · exact fun hx => .inl ⟨x, hx, rfl⟩

/-! ### The closure of rows -/

/-- The map is the closure of all rows with the same nodes and, loops apart, the same edges. -/
theorem eq_transitiveClosure {rows : List (Path k)}
    (hnodes : ∀ x, x ∈ (Closure.nodes rows).keys ↔ node x)
    (hedges : ∀ x y, Loopless (Closure.Edge rows) x y ↔ Loopless E x y) :
    m = Closure.transitiveClosure rows := by
  have hloopless : Loopless (Closure.Edge rows) = Loopless E :=
    funext₂ fun x y => propext (hedges x y)
  have hsame : ∀ {n x y}, IsDistance (Closure.Edge rows) n x y ↔ IsDistance E n x y := by
    intro n x y
    rw [← isDistance_loopless_iff, hloopless, isDistance_loopless_iff]
  refine Table.ext_get? fun q => Option.ext fun c => ?_
  obtain ⟨x, y⟩ := q
  rw [Closure.get?_transitiveClosure, hnodes]
  simp only [hsame]
  constructor
  · intro hc
    obtain ⟨hx, hd⟩ := h.get?_eq_some.1 hc
    exact ⟨hx, c.toNat, hd, (UInt32.ofNat_toNat).symm⟩
  · rintro ⟨hx, n, hd, rfl⟩
    obtain ⟨c, hc, rfl⟩ := distance?_eq_some.1 ((h.distance x y n).2 ⟨hx, hd⟩)
    rwa [UInt32.ofNat_toNat]

/-- In particular it is the closure of its own rows. -/
theorem eq_transitiveClosure_rows : m = Closure.transitiveClosure m.rows :=
  h.eq_transitiveClosure (fun _ => h.mem_nodes) fun _ _ => h.loopless_edge_iff

/-- A graph has one map that closes it. -/
theorem unique (h' : m'.Closes node E) : m = m' :=
  (h.eq_transitiveClosure (fun _ => h'.mem_nodes) fun _ _ => h'.loopless_edge_iff).trans
    h'.eq_transitiveClosure_rows.symm

/-! ### A new node -/

/-- No edges lead from where there is no node. -/
theorem eq_of_unknown {n : Nat} (hx : ¬ node x) (hd : IsDistance E n x y) : y = x ∧ n = 0 := by
  obtain ⟨hw, -⟩ := hd
  cases n with
  | zero => exact ⟨(Walk.zero_iff.1 hw).symm, rfl⟩
  | succ n =>
    obtain ⟨z, e, -⟩ := TransGen.head'_iff.1 hw.transGen
    exact absurd (h.ends x z e).1 hx

/-- A new node gets a row of its own. -/
theorem insert (ha : ¬ node a) :
    Closes (m.insert (a, a) 0) (fun x => x = a ∨ node x) E where
  ends x y e := (h.ends x y e).imp .inr .inr
  distance x y n := by
    have hfar : ∀ {y}, IsDistance E n a y → y = a ∧ n = 0 := h.eq_of_unknown ha
    rw [distance?, Table.get?_insert]
    split
    case isTrue hq =>
      obtain ⟨rfl, rfl⟩ := Prod.mk.inj hq
      constructor
      · rintro ⟨⟩
        exact ⟨.inl rfl, .self _⟩
      · rintro ⟨-, hd⟩
        rw [(hfar hd).2]
        rfl
    case isFalse hq =>
      rw [← distance?, h.distance]
      constructor
      · rintro ⟨hx, hd⟩
        exact ⟨.inr hx, hd⟩
      · rintro ⟨hx, hd⟩
        refine ⟨hx.resolve_left ?_, hd⟩
        rintro rfl
        exact hq (by rw [(hfar hd).1])

/-! ### A new edge -/

variable (hm' : ∀ x y, m'.get? (x, y) = (m.get? (x, y)).merge min
    ((m.get? (x, a)).bind fun u => (m.get? (d, y)).map fun w => u + 1 + w))
  (hd : node d) (hda : ¬ ReflTransGen E d a)

include hm' hd hda in
theorem connected_linked :
    (∃ c, m'.get? (x, y) = some c) ↔ node x ∧ ReflTransGen (Joined E a d) x y := by
  rw [hm', exists_merge_min_iff, h.connected, h.connected, h.connected,
    reflTransGen_joined_iff hda]
  simp only [hd, true_and]
  rw [and_assoc, ← and_or_left]

variable (hover : ∀ {x y k j}, node x → IsDistance E k x a → IsDistance E j d y →
  k + 1 + j < UInt32.size)

include hd hover in
/-- The depth over a new edge is the sum of the distances to it and from it, if that fits. -/
theorem over_eq_some {n : Nat} :
    ((m.get? (x, a)).bind fun u => (m.get? (d, y)).map fun w => u + 1 + w).map UInt32.toNat =
        some n ↔
      node x ∧ ∃ k j, IsDistance E k x a ∧ IsDistance E j d y ∧ n = k + 1 + j := by
  simp only [Option.map_eq_some_iff, Option.bind_eq_some_iff, h.get?_eq_some]
  constructor
  · rintro ⟨_, ⟨u, ⟨hx, hu⟩, w, ⟨-, hw⟩, rfl⟩, rfl⟩
    exact ⟨hx, _, _, hu, hw, toNat_over (hover hx hu hw)⟩
  · rintro ⟨hx, k, j, hk, hj, rfl⟩
    obtain ⟨u, hu, rfl⟩ := distance?_eq_some.1 ((h.distance x a k).2 ⟨hx, hk⟩)
    obtain ⟨w, hw, rfl⟩ := distance?_eq_some.1 ((h.distance d y j).2 ⟨hd, hj⟩)
    exact ⟨_, ⟨u, ⟨hx, hk⟩, w, ⟨hd, hj⟩, rfl⟩, toNat_over (hover hx hk hj)⟩

include hm' hd hda hover in
/-- The least of the old depth and the way over a new edge is the distance with that edge. -/
theorem link (ha : node a) : m'.Closes node (Joined E a d) where
  ends x y e := by
    rcases e with e | ⟨rfl, rfl⟩
    · exact h.ends x y e
    · exact ⟨ha, hd⟩
  distance x y n := by
    have hold := h.distance x y
    rw [distance?] at hold
    rw [distance?, hm', map_toNat_merge_min, merge_min_eq_some, isDistance_joined_iff hda]
    simp only [hold, h.over_eq_some hd hover]
    by_cases hx : node x
    · simp only [hx, true_and]
      refine and_congr_right' (and_congr_right' ⟨?_, ?_⟩)
      · exact fun hle k j hk hj => hle _ ⟨k, j, hk, hj, rfl⟩
      · rintro hle _ ⟨k, j, hk, hj, rfl⟩
        exact hle k j hk hj
    · simp [hx]

end Closes

end DepthMap

namespace Closure

variable {rows : List (Path k)} {x y : NodeId k}

theorem mem_nodes_of_reflTransGen (hx : x ∈ (nodes rows).keys)
    (hxy : ReflTransGen (Edge rows) x y) : y ∈ (nodes rows).keys := by
  rcases ReflTransGen.cases_tail hxy with rfl | ⟨z, -, e⟩
  · exact hx
  · exact mem_nodes.2 (.inr (.inr ⟨z, e⟩))

/-- A closure that fits a memory holds distances that fit a depth. -/
theorem lt_size_of_isDistance (hfits : (transitiveClosure rows).size < rowLimit)
    (hx : x ∈ (nodes rows).keys) {n : Nat} (hd : IsDistance (Edge rows) n x y) :
    n < UInt32.size := by
  have hle := hd.square_le_card (transitiveClosure rows).keys.toFinset fun u v hu hv => by
    obtain ⟨i, hi⟩ := reflTransGen_iff_isDistance.1 hv
    exact List.mem_toFinset.2 (Table.mem_keys.2 ⟨_, get?_transitiveClosure.2
      ⟨mem_nodes_of_reflTransGen hx hu, i, hi, rfl⟩⟩)
  rw [List.toFinset_card_of_nodup (transitiveClosure rows).nodup_keys] at hle
  have hsize : (transitiveClosure rows).keys.length = (transitiveClosure rows).size :=
    List.length_map _
  exact lt_size_of_square_le hle (by omega)

/-- The closure of rows closes their edges, if the distances fit a depth. -/
theorem closes_of_lt_size (hlt : ∀ x ∈ (nodes rows).keys, ∀ n y,
    IsDistance (Edge rows) n x y → n < UInt32.size) :
    (transitiveClosure rows).Closes (· ∈ (nodes rows).keys) (Edge rows) where
  ends x y e := ⟨mem_nodes.2 (.inr (.inl ⟨y, e⟩)), mem_nodes.2 (.inr (.inr ⟨x, e⟩))⟩
  distance x y n := by
    rw [DepthMap.distance?_eq_some]
    constructor
    · rintro ⟨c, hc, rfl⟩
      obtain ⟨hx, n, hd, rfl⟩ := get?_transitiveClosure.1 hc
      rw [UInt32.toNat_ofNat_of_lt' (hlt x hx n y hd)]
      exact ⟨hx, hd⟩
    · rintro ⟨hx, hd⟩
      exact ⟨_, get?_transitiveClosure.2 ⟨hx, n, hd, rfl⟩,
        UInt32.toNat_ofNat_of_lt' (hlt x hx n y hd)⟩

theorem transitiveClosure_closes (hfits : (transitiveClosure rows).size < rowLimit) :
    (transitiveClosure rows).Closes (· ∈ (nodes rows).keys) (Edge rows) :=
  closes_of_lt_size fun _ hx _ _ => lt_size_of_isDistance hfits hx

end Closure

end Lineage

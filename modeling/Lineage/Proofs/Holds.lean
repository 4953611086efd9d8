import Lineage.Proofs.Closes
import Lineage.Proofs.Dag

/-!
# Contents that hold a graph

`Contents.Holds s g` says that the contents `s` hold the nodes of the graph `g` and, for each pair
of nodes that edges connect, one row at their distance: the rows close the graph (`Holds.closes`).

* `Holds.link`: the rows of a new edge.
* `Holds.unlink`, `Holds.drop`: the closure of the rows without an edge or a node.

The rows have to fit a memory (`Contents.Fits`); in an acyclic graph all walks are short then
(`near`).
-/

open Relation

namespace Lineage

variable {k : Kind}

namespace Contents

/-- Whether the rows fit a memory. -/
def Fits (s : Contents k) : Prop := s.paths.size < rowLimit

instance (s : Contents k) : Decidable s.Fits :=
  inferInstanceAs (Decidable (s.paths.size < rowLimit))

/-- In an acyclic graph whose connected pairs have rows that fit a memory, every walk is shorter
than 2³². -/
theorem near {E : NodeId k → NodeId k → Prop} {m : DepthMap k} {x y : NodeId k} {n : Nat}
    (hE : Acyclic E) (hm : m.size < rowLimit) (h : Walk E n x y)
    (hpairs : ∀ u v, ReflTransGen E x u → ReflTransGen E u v → ∃ d, m.get? (u, v) = some d) :
    n < UInt32.size := by
  have hle := hE.square_le_card h m.keys.toFinset
    fun u v hu hv => List.mem_toFinset.2 (Table.mem_keys.2 (hpairs u v hu hv))
  rw [List.toFinset_card_of_nodup m.nodup_keys] at hle
  have hsize : m.keys.length = m.size := List.length_map _
  exact lt_size_of_square_le hle (by omega)

/-- The contents hold the nodes of a graph and one row for each pair of them that edges connect, at
their distance. -/
structure Holds (s : Contents k) (g : Dag k) : Prop where
  active : s.active = g.active
  archived : s.archived = g.archived
  distance : ∀ x y n, s.paths.distance? x y = some n ↔ g.Knows x ∧ IsDistance g.edge n x y
  wellFormed : g.WellFormed

namespace Holds

variable {s : Contents k} {g g' : Dag k} {x y a d id : NodeId k} {node : Node k}

theorem empty : ({} : Contents k).Holds {} where
  active := rfl
  archived := rfl
  distance x y n := by simp [DepthMap.distance?, Dag.Knows, Dag.node?]
  wellFormed := .empty

/-- The rows close the graph. -/
theorem closes (h : s.Holds g) : s.paths.Closes g.Knows g.edge := ⟨h.wellFormed.ends, h.distance⟩

/-- A pair has a row iff edges connect it. -/
theorem connected (h : s.Holds g) :
    (∃ c, s.paths.get? (x, y) = some c) ↔ g.Knows x ∧ ReflTransGen g.edge x y :=
  h.closes.connected

theorem get?_eq_some (h : s.Holds g) {c : UInt32} :
    s.paths.get? (x, y) = some c ↔ g.Knows x ∧ IsDistance g.edge c.toNat x y :=
  h.closes.get?_eq_some

/-- Rows of depth 0 are those of a node with itself. -/
theorem get?_eq_zero (h : s.Holds g) : s.paths.get? (x, y) = some 0 ↔ g.Knows x ∧ x = y :=
  h.closes.get?_eq_zero

/-- Rows of depth 1 are the edges. -/
theorem get?_eq_one (h : s.Holds g) : s.paths.get? (x, y) = some 1 ↔ g.edge x y := by
  rw [h.closes.get?_eq_one]
  exact ⟨fun e => e.1, fun e => ⟨e, fun hxy => h.wellFormed.acyclic.not_edge (hxy ▸ e)⟩⟩

theorem edge_iff (h : s.Holds g) : Closure.Edge s.rows x y ↔ g.edge x y :=
  DepthMap.mk_mem_rows.trans h.get?_eq_one

/-! ## Changes of nodes -/

/-- Nodes may change as long as the same ones are known. -/
theorem of_nodes (h : s.Holds g) (hg : g'.WellFormed) (hedge : g'.edge = g.edge)
    (hknows : ∀ x, g'.Knows x ↔ g.Knows x) {s' : Contents k} (hactive : s'.active = g'.active)
    (harchived : s'.archived = g'.archived) (hpaths : s'.paths = s.paths) : s'.Holds g' where
  active := hactive
  archived := harchived
  distance x y n := by rw [hpaths, h.distance, hedge, hknows]
  wellFormed := hg

/-- A new node gets a row of its own. -/
theorem insert (h : s.Holds g) (hnew : ¬ g.Knows node.id)
    (hcode : ∀ id, ¬ g.HasCode id node.code) :
    Holds { s with
        active := s.active.insert node.id node
        paths := s.paths.insert (node.id, node.id) 0 }
      { g with active := g.active.insert node.id node } where
  active := by rw [h.active]
  archived := h.archived
  distance x y n := by
    rw [Dag.knows_write]
    exact (h.closes.insert hnew).distance x y n
  wellFormed := h.wellFormed.write (Dag.not_knows_iff.1 hnew).2 fun x _ => hcode x

/-! ## A new edge -/

/-- The rows after an edge was added, if they fit. -/
theorem link (h : s.Holds g) (hfits : (linked a d s.paths).size < rowLimit) (ha : g.Knows a)
    (hd : g.Knows d) (hda : ¬ ReflTransGen g.edge d a) :
    Holds { s with paths := linked a d s.paths } { g with edge := Joined g.edge a d } where
  active := h.active
  archived := h.archived
  distance := by
    have hg := h.wellFormed.join ha hd hda
    have hlinked := get?_linked a d s.paths
    have hover : ∀ {x y k j}, g.Knows x → IsDistance g.edge k x a → IsDistance g.edge j d y →
        k + 1 + j < UInt32.size := fun hx hk hj =>
      near hg.acyclic hfits (hk.1.join hj.1) fun u v hu hv =>
        (h.closes.connected_linked hlinked hd hda).2 ⟨hg.knows_of_reflTransGen hx hu, hv⟩
    exact (h.closes.link hlinked hd hda hover ha).distance
  wellFormed := h.wellFormed.join ha hd hda

/-! ## Rows without an edge or a node -/

/-- The closure of rows with the nodes and the edges of a graph holds it, if it fits. -/
theorem of_closure {m : DepthMap k} (hg : g.WellFormed) (hactive : s.active = g.active)
    (harchived : s.archived = g.archived)
    (hnodes : ∀ x, x ∈ (Closure.nodes m.rows).keys ↔ g.Knows x)
    (hedges : ∀ x y, Closure.Edge m.rows x y ↔ g.edge x y)
    (hfits : (Closure.transitiveClosure m.rows).size < rowLimit) :
    Holds { s with paths := Closure.transitiveClosure m.rows } g where
  active := hactive
  archived := harchived
  distance x y n := by
    have hedge : Closure.Edge m.rows = g.edge := funext₂ fun x y => propext (hedges x y)
    have hclosure := (Closure.transitiveClosure_closes hfits).distance x y n
    rwa [hnodes, hedge] at hclosure
  wellFormed := hg

theorem mem_nodes_iff (hg : g.WellFormed) {m : DepthMap k}
    (hself : ∀ x, g.Knows x → m.get? (x, x) = some 0)
    (hknows : ∀ x y, m.get? (x, y) = some 0 → g.Knows x)
    (hedges : ∀ x y, Closure.Edge m.rows x y ↔ g.edge x y) :
    x ∈ (Closure.nodes m.rows).keys ↔ g.Knows x := by
  rw [Closure.mem_nodes]
  constructor
  · rintro (⟨y, h⟩ | ⟨y, h⟩ | ⟨y, h⟩)
    · exact hknows x y (DepthMap.mk_mem_rows.1 h)
    · exact (hg.ends x y ((hedges x y).1 h)).1
    · exact (hg.ends y x ((hedges y x).1 h)).2
  · exact fun h => .inl ⟨x, DepthMap.mk_mem_rows.2 (hself x h)⟩

/-- Without the row of an edge, the closure of the rows is that of the other edges. -/
theorem unlink (h : s.Holds g) (he : g.edge a d)
    (hfits : (Closure.transitiveClosure (DepthMap.rows (s.paths.erase (a, d)))).size < rowLimit) :
    Holds { s with paths := Closure.transitiveClosure (DepthMap.rows (s.paths.erase (a, d))) }
      { g with edge := fun x y => g.edge x y ∧ (x, y) ≠ (a, d) } := by
  have hget : ∀ x y c, (s.paths.erase (a, d)).get? (x, y) = some c ↔
      (x, y) ≠ (a, d) ∧ s.paths.get? (x, y) = some c := by
    intro x y c
    rw [Table.get?_erase]
    by_cases hq : (x, y) = (a, d) <;> simp [hq]
  have hedges : ∀ x y, Closure.Edge (DepthMap.rows (s.paths.erase (a, d))) x y ↔
      g.edge x y ∧ (x, y) ≠ (a, d) := by
    intro x y
    rw [Closure.Edge, Path.direct, DepthMap.mk_mem_rows, and_comm, ← h.get?_eq_one]
    exact hget x y 1
  have hne : ∀ x, (x, x) ≠ (a, d) := by
    rintro x hx
    obtain ⟨rfl, rfl⟩ := Prod.mk.inj hx
    exact h.wellFormed.acyclic.not_edge he
  refine of_closure h.wellFormed.cut h.active h.archived (fun x => ?_) hedges hfits
  refine mem_nodes_iff h.wellFormed.cut (fun x hx => ?_) (fun x y hy => ?_) hedges
  · exact (hget x x 0).2 ⟨hne x, h.get?_eq_zero.2 ⟨hx, rfl⟩⟩
  · exact (h.get?_eq_zero.1 ((hget x y 0).1 hy).2).1

/-- Without the rows at a node, the closure of the rows is that of the graph without the node. -/
theorem drop (h : s.Holds g) {m : DepthMap k}
    (hm : m = s.paths.filter fun pair _ => !(pair.1 == id) && !(pair.2 == id))
    (hfits : (Closure.transitiveClosure m.rows).size < rowLimit) :
    Holds { active := s.active.erase id, archived := s.archived.erase id,
            paths := Closure.transitiveClosure m.rows } (g.drop id) := by
  have hget : ∀ x y c, m.get? (x, y) = some c ↔
      x ≠ id ∧ y ≠ id ∧ s.paths.get? (x, y) = some c := by
    intro x y c
    rw [hm, Table.get?_filter, Option.filter_eq_some_iff]
    simp [and_comm, and_assoc]
  have hedges : ∀ x y, Closure.Edge m.rows x y ↔ (g.drop id).edge x y := by
    intro x y
    rw [Closure.Edge, Path.direct, DepthMap.mk_mem_rows, hget, h.get?_eq_one, Dag.drop]
    tauto
  have hg := h.wellFormed.drop id
  have hnodes : ∀ x, x ∈ (Closure.nodes m.rows).keys ↔ (g.drop id).Knows x := by
    refine fun x => mem_nodes_iff hg (fun x hx => ?_) (fun x y hy => ?_) hedges
    · obtain ⟨hne, hx⟩ := (g.knows_drop id x).1 hx
      exact (hget x x 0).2 ⟨hne, hne, h.get?_eq_zero.2 ⟨hx, rfl⟩⟩
    · obtain ⟨hne, -, hy⟩ := (hget x y 0).1 hy
      exact (g.knows_drop id x).2 ⟨hne, (h.get?_eq_zero.1 hy).1⟩
  have hactive : s.active.erase id = (g.drop id).active := by rw [h.active]; rfl
  have harchived : s.archived.erase id = (g.drop id).archived := by rw [h.archived]; rfl
  exact of_closure (s := { s with active := s.active.erase id, archived := s.archived.erase id })
    hg hactive harchived hnodes hedges hfits

end Holds

end Contents

end Lineage

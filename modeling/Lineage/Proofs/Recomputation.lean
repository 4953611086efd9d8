import Lineage.Proofs.Closes
import Lineage.Proofs.Search

/-!
# Closures of arbitrary rows

Rows need not be a closure of anything: a store that lost an edge or a node holds rows that nothing
implies any more, and depths that are too small.

* `transitiveClosure_spec`: the closure holds the shortest chains of depth-1 rows between the nodes
  of the rows, and depends on no other rows and on no order.
* `reconcile_spec`: a repair turns any rows into that closure, touches each pair once, and leaves
  nothing to repair.

Only the rows' depths 0 and 1 count (`transitiveClosure_congr`), and the closure has the same nodes
and edges as the rows, loops apart (`Closes.mem_nodes`, `Closes.edge_iff`).
-/

open Relation

namespace Lineage.Closure

variable {k : Kind} {rows rows' : List (Path k)} {x y : NodeId k}

/-! ## What a closure depends on -/

/-- Whether both have the same rows of depth 0 and 1, in any order and number. -/
def SameBase (rows rows' : List (Path k)) : Prop :=
  ∀ p : Path k, p.depth ≤ 1 → (p ∈ rows ↔ p ∈ rows')

namespace SameBase

variable (h : SameBase rows rows')

include h

theorem edge_iff : Edge rows x y ↔ Edge rows' x y := h _ (UInt32.le_refl 1)

theorem mem_nodes_iff : x ∈ (nodes rows).keys ↔ x ∈ (nodes rows').keys := by
  have hself : ∀ y, ⟨x, y, 0⟩ ∈ rows ↔ ⟨x, y, 0⟩ ∈ rows' := fun y => h ⟨x, y, 0⟩ UInt32.zero_le
  simp only [mem_nodes, hself, h.edge_iff]

theorem transitiveClosure_eq : transitiveClosure rows = transitiveClosure rows' := by
  have hedge : Edge rows = Edge rows' := funext₂ fun x y => propext h.edge_iff
  refine Table.ext_get? fun q => Option.ext fun d => ?_
  obtain ⟨x, y⟩ := q
  rw [get?_transitiveClosure, get?_transitiveClosure, h.mem_nodes_iff, hedge]

end SameBase

/-- A node owns a row of depth 0 or is an end of a row of depth 1. -/
theorem mem_nodes_iff_exists : x ∈ (nodes rows).keys ↔
    ∃ p ∈ rows, p.depth = 0 ∧ p.ancestor = x ∨
      p.depth = 1 ∧ (p.ancestor = x ∨ p.descendant = x) := by
  rw [mem_nodes]
  constructor
  · rintro (⟨y, h⟩ | ⟨y, h⟩ | ⟨y, h⟩)
    · exact ⟨_, h, .inl ⟨rfl, rfl⟩⟩
    · exact ⟨_, h, .inr ⟨rfl, .inl rfl⟩⟩
    · exact ⟨_, h, .inr ⟨rfl, .inr rfl⟩⟩
  · rintro ⟨⟨a, d, n⟩, h, ⟨rfl, rfl⟩ | ⟨rfl, rfl | rfl⟩⟩
    · exact .inl ⟨d, h⟩
    · exact .inr (.inl ⟨d, h⟩)
    · exact .inr (.inr ⟨a, h⟩)

/-- The closure of rows holds the shortest chains of depth-1 rows, counted in 32 bits. The count
is exact if the closure fits a memory. Rows of other depths, orders and repetitions make no
difference, nor does it matter whether the search goes by levels or takes nodes off a queue. -/
theorem transitiveClosure_spec (rows : List (Path k)) :
    (∀ x y d, (transitiveClosure rows).get? (x, y) = some d ↔
      (∃ p ∈ rows, p.depth = 0 ∧ p.ancestor = x ∨
        p.depth = 1 ∧ (p.ancestor = x ∨ p.descendant = x)) ∧
      ∃ n, IsDistance (Edge rows) n x y ∧ d = UInt32.ofNat n) ∧
    ((transitiveClosure rows).size < rowLimit → ∀ x y n,
      (transitiveClosure rows).distance? x y = some n ↔
        (∃ p ∈ rows, p.depth = 0 ∧ p.ancestor = x ∨
          p.depth = 1 ∧ (p.ancestor = x ∨ p.descendant = x)) ∧
        IsDistance (Edge rows) n x y) ∧
    (∀ rows', SameBase rows' rows → transitiveClosure rows' = transitiveClosure rows) ∧
    searchedClosure rows = transitiveClosure rows := by
  refine ⟨fun x y d => ?_, fun hfits x y n => ?_, fun rows' h => h.transitiveClosure_eq,
    searchedClosure_eq rows⟩
  · rw [get?_transitiveClosure, mem_nodes_iff_exists]
  · rw [(transitiveClosure_closes hfits).distance, mem_nodes_iff_exists]

/-- A cycle of three nodes, one of them with a loop and one edge given twice, a row of depth 0
between two nodes, and a row that no edges imply. -/
def tangle : List (Path ⟨"tag"⟩) :=
  [⟨⟨1⟩, ⟨9⟩, 5⟩, .direct ⟨3⟩ ⟨1⟩, .direct ⟨2⟩ ⟨2⟩, .direct ⟨1⟩ ⟨2⟩, .direct ⟨2⟩ ⟨3⟩,
    .direct ⟨1⟩ ⟨2⟩, ⟨⟨7⟩, ⟨8⟩, 0⟩]

/-- Across the tangle it takes two edges, and none of them leads to node 9. -/
theorem transitiveClosure_spec_tangle :
    (transitiveClosure tangle).size < rowLimit ∧ IsDistance (Edge tangle) 2 ⟨1⟩ ⟨3⟩ ∧
      (¬ ∃ n, IsDistance (Edge tangle) n ⟨1⟩ ⟨9⟩) ∧
      transitiveClosure tangle.reverse = transitiveClosure tangle := by
  have hfits : (transitiveClosure tangle).size < rowLimit := by decide +kernel
  have hspec := transitiveClosure_spec tangle
  have hreverse : SameBase tangle.reverse tangle := fun p _ => List.mem_reverse
  refine ⟨hfits, ((hspec.2.1 hfits ⟨1⟩ ⟨3⟩ 2).1 (by decide +kernel)).2, ?_,
    hspec.2.2.1 tangle.reverse hreverse⟩
  rintro ⟨n, hn⟩
  have hnone : (transitiveClosure tangle).distance? ⟨1⟩ ⟨9⟩ = none := by decide +kernel
  rw [(hspec.2.1 hfits ⟨1⟩ ⟨9⟩ n).2 ⟨⟨.direct ⟨1⟩ ⟨2⟩, by decide, by decide⟩, hn⟩] at hnone
  cases hnone

/-! ## Repair -/

/-- New depths are for rows of their own. -/
theorem nodup_redepth (hnodup : (rows.map Path.pair).Nodup) :
    ((reconcile rows).redepth.map Path.pair).Nodup := by
  -- A new depth stands for the row that it was made from.
  obtain ⟨renew, hrenew, hsame⟩ : ∃ renew : Path k → Option (Path k),
      (reconcile rows).redepth = rows.filterMap renew ∧
        ∀ {p p' : Path k}, renew p = some p' → p'.pair = p.pair := by
    refine ⟨_, rfl, fun {p p'} h => ?_⟩
    split at h
    case h_1 depth _ =>
      split at h
      case isTrue => cases h
      case isFalse =>
        obtain rfl := Option.some.inj h
        rfl
    case h_2 => cases h
  rw [hrenew]
  rw [List.Nodup, List.pairwise_map] at hnodup ⊢
  apply List.Pairwise.filterMap _ _ hnodup
  intro p q hne p' hp q' hq
  rw [hsame hp, hsame hq]
  exact hne

/-- A repair touches no pair twice. -/
theorem nodup_reconcile (hnodup : (rows.map Path.pair).Nodup) :
    (((reconcile rows).stale ++ (reconcile rows).missing ++ (reconcile rows).redepth).map
      Path.pair).Nodup := by
  have hstale : ((reconcile rows).stale.map Path.pair).Nodup :=
    hnodup.sublist (List.filter_sublist.map _)
  rw [List.map_append, List.map_append, List.nodup_append', List.nodup_append']
  refine ⟨⟨hstale, nodup_missing rows, fun q h h' => ?_⟩, nodup_redepth hnodup, fun q h h' => ?_⟩
  · exact (Contents.mem_map_missing.1 h').2 (Contents.mem_map_stale.1 h).1
  · obtain ⟨c, hc, p, hp, rfl, -⟩ := Contents.mem_map_redepth.1 h'
    rcases List.mem_append.1 h with h | h
    · rw [(Contents.mem_map_stale.1 h).2] at hc
      cases hc
    · exact (Contents.mem_map_missing.1 h).2 (List.mem_map_of_mem hp)

/-- The rows of a closure that fits a memory have the nodes and the edges of the rows that it was
made from, loops apart, and need no repair. -/
theorem closure_of_closure (hfits : (transitiveClosure rows).size < rowLimit)
    (hnodup : (rows'.map Path.pair).Nodup)
    (hrows : DepthMap.ofRows rows' = transitiveClosure rows) :
    (∀ x, x ∈ (nodes rows').keys ↔ x ∈ (nodes rows).keys) ∧
      (∀ x y, Edge rows' x y ↔ Edge rows x y ∧ x ≠ y) ∧
      transitiveClosure rows' = transitiveClosure rows := by
  have hcloses := transitiveClosure_closes hfits
  have hsame : SameBase rows' (transitiveClosure rows).rows := by
    intro p _
    rw [DepthMap.mem_rows, ← hrows, DepthMap.get?_ofRows hnodup]
  refine ⟨fun x => ?_, fun x y => ?_, ?_⟩
  · rw [hsame.mem_nodes_iff, hcloses.mem_nodes]
  · rw [hsame.edge_iff, hcloses.edge_iff, Loopless]
  · rw [hsame.transitiveClosure_eq, ← hcloses.eq_transitiveClosure_rows]

/-- A repair of any rows, one at most for each pair, leaves the closure of their edges. It deletes
and changes rows that are there and inserts pairs that have none, each pair once; it is empty iff
the rows are that closure. The rows that it leaves, in any order, need no repair: they have the same
nodes and, loops apart, the same edges. -/
theorem reconcile_spec (rows : List (Path k)) (hnodup : (rows.map Path.pair).Nodup) :
    let fix := reconcile rows
    let repaired := Contents.fixed fix (DepthMap.ofRows rows)
    repaired = transitiveClosure rows ∧
    ((fix.stale ++ fix.missing ++ fix.redepth).map Path.pair).Nodup ∧
    (∀ p ∈ fix.stale, p ∈ rows) ∧
    (∀ p ∈ fix.missing, p.pair ∉ rows.map Path.pair) ∧
    (∀ p ∈ fix.redepth, p.pair ∈ rows.map Path.pair) ∧
    (fix.isEmpty ↔ DepthMap.ofRows rows = transitiveClosure rows) ∧
    ((transitiveClosure rows).size < rowLimit →
      ∀ rows' : List (Path k), (rows'.map Path.pair).Nodup → DepthMap.ofRows rows' = repaired →
        (reconcile rows').isEmpty ∧ (∀ x, x ∈ (nodes rows').keys ↔ x ∈ (nodes rows).keys) ∧
          ∀ x y, Edge rows' x y ↔ Edge rows x y ∧ x ≠ y) := by
  intro fix repaired
  have hrepaired : repaired = transitiveClosure rows := Contents.fixed_reconcile hnodup
  refine ⟨hrepaired, nodup_reconcile hnodup, fun p hp => (mem_stale.1 hp).1,
    fun p hp => (mem_missing.1 hp).2, fun p hp => ?_, ?_, fun hfits rows' hnodup' hrows' => ?_⟩
  · obtain ⟨-, q, hq, e, -⟩ := mem_redepth.1 hp
    exact e ▸ List.mem_map_of_mem hq
  · rw [isEmpty_reconcile_iff hnodup, eq_comm]
  · rw [hrepaired] at hrows'
    obtain ⟨hnodes, hedges, hclosure⟩ := closure_of_closure hfits hnodup' hrows'
    refine ⟨(isEmpty_reconcile_iff hnodup').2 ?_, hnodes, hedges⟩
    rw [hclosure, hrows']

/-- A cycle of two nodes with a loop and without one of its own rows, a row that is too deep, and
one that no edges imply. -/
def wreck : List (Path ⟨"tag"⟩) :=
  [.self ⟨1⟩, .direct ⟨1⟩ ⟨2⟩, .direct ⟨2⟩ ⟨1⟩, .direct ⟨2⟩ ⟨2⟩, .direct ⟨2⟩ ⟨3⟩, ⟨⟨1⟩, ⟨3⟩, 7⟩,
    ⟨⟨3⟩, ⟨4⟩, 2⟩]

/-- The repair of the wreck has something of each kind, and one is enough. -/
theorem reconcile_spec_wreck :
    (wreck.map Path.pair).Nodup ∧
      reconcile wreck = {
        stale := [⟨⟨3⟩, ⟨4⟩, 2⟩], missing := [.self ⟨3⟩],
        redepth := [.self ⟨2⟩, ⟨⟨1⟩, ⟨3⟩, 2⟩] } ∧
      Contents.fixed (reconcile wreck) (DepthMap.ofRows wreck) = transitiveClosure wreck ∧
      (reconcile (transitiveClosure wreck).rows).isEmpty := by
  have hnodup : (wreck.map Path.pair).Nodup := by decide +kernel
  obtain ⟨hrepaired, -, -, -, -, -, honce⟩ := reconcile_spec wreck hnodup
  refine ⟨hnodup, by decide +kernel, hrepaired, ?_⟩
  refine (honce (by decide +kernel) (transitiveClosure wreck).rows (DepthMap.nodup_rows _) ?_).1
  rw [hrepaired, DepthMap.ofRows_rows]

end Lineage.Closure

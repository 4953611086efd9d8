import Lineage.Proofs.Limits
import Lineage.Proofs.Recovery
import Lineage.Proofs.Registered
import Lineage.Proofs.Script

/-!
# Rows with any depths

How far apart two nodes are is told by the depth of their row only while the depths fit their 32
bits. That there is a row at all tells which nodes edges connect, whatever its depth is.

* `Contents.Outlines`: the rows are those of the pairs that edges without a cycle connect, and if
  there are no more than 2³² nodes they close the graph.
* `Outlines.depth_lt`, `over_lt`: no depth of such rows, and no sum of depths over a new edge, comes
  to the number of nodes.
* `Trims`: what a repair begins with, the contents without some rows or nodes. `Trims.closed`: what
  it leaves. `Trims.closureWithin`: it forms no sum that comes to the number of nodes.
* `Work.add_eq_ok`, `link_eq_ok`, `unlink_eq_ok`, `purge_eq_or`, `delete_eq_ok`: what work that is
  not refused makes of contents.
* `Change.outlines`: the work of every change leaves rows that outline some graph, though there may
  be more nodes than 2³².
-/

open Relation

namespace Lineage

variable {k : Kind}

namespace Contents

variable {s t : Contents k} {E : NodeId k → NodeId k → Prop} {x y a d id : NodeId k}
  {node : Node k} {n : Nat} {c : UInt32}

/-! ## Counting nodes -/

/-- The number of nodes, active and archived. -/
def nodeCount (s : Contents k) : Nat := s.active.size + s.archived.size

/-- The ids of the nodes. -/
def ids (s : Contents k) : List (NodeId k) := s.active.keys ++ s.archived.keys

theorem length_ids (s : Contents k) : s.ids.length = s.nodeCount := by
  rw [ids, List.length_append, Table.keys, Table.keys, List.length_map, List.length_map]
  rfl

theorem mem_ids : x ∈ s.ids ↔ s.records.Knows x := by
  rw [ids, List.mem_append, Table.mem_keys, Table.mem_keys, ← Option.isSome_iff_exists,
    ← Option.isSome_iff_exists, ← Bool.or_eq_true, ← Option.isSome_or, Option.isSome_iff_exists]
  rfl

theorem nodup_ids (hs : s.records.WellFormed) : s.ids.Nodup := by
  refine List.nodup_append'.2 ⟨s.active.nodup_keys, s.archived.nodup_keys, fun x hx hx' => ?_⟩
  obtain ⟨node, hnode⟩ := Table.mem_keys.1 hx
  obtain ⟨node', hnode'⟩ := Table.mem_keys.1 hx'
  have hnone := hs.not_archived (show s.records.active.get? x = some node from hnode)
  exact Option.some_ne_none _ (hnode'.symm.trans hnone)

theorem nodeCount_le (hs : s.records.WellFormed)
    (h : ∀ x, s.records.Knows x → t.records.Knows x) : s.nodeCount ≤ t.nodeCount := by
  rw [← length_ids, ← length_ids]
  exact ((nodup_ids hs).subperm fun x hx => mem_ids.2 (h x (mem_ids.1 hx))).length_le

/-! ## Graphs of the nodes -/

/-- Edges between nodes of the contents that make no cycle. -/
structure Spans (s : Contents k) (E : NodeId k → NodeId k → Prop) : Prop where
  ends : ∀ x y, E x y → s.records.Knows x ∧ s.records.Knows y
  acyclic : Acyclic E

theorem Spans.knows (h : s.Spans E) (hx : s.records.Knows x) (hxy : ReflTransGen E x y) :
    s.records.Knows y := by
  rcases ReflTransGen.cases_tail hxy with rfl | ⟨z, -, e⟩
  · exact hx
  · exact (h.ends z y e).2

/-- A walk passes no node twice. -/
theorem Spans.walk_lt (h : s.Spans E) (hx : s.records.Knows x) (hw : Walk E n x y) :
    n < s.nodeCount := by
  have hlt := h.acyclic.lt_card hw s.ids.toFinset fun u hu =>
    List.mem_toFinset.2 (mem_ids.2 (h.knows hx hu))
  exact hlt.trans_le (s.ids.toFinset_card_le.trans_eq s.length_ids)

theorem Spans.join (h : s.Spans E) (ha : s.records.Knows a) (hd : s.records.Knows d)
    (hda : ¬ ReflTransGen E d a) : s.Spans (Joined E a d) where
  ends x y e := by
    rcases e with e | ⟨rfl, rfl⟩
    · exact h.ends x y e
    · exact ⟨ha, hd⟩
  acyclic := h.acyclic.joined hda

/-- The rows are those of the pairs of nodes that edges connect, and the row that a node has for
itself has depth 0. If the nodes are not too many for their 32 bits, all depths are distances. -/
structure Outlines (s : Contents k) (E : NodeId k → NodeId k → Prop) : Prop extends Spans s E where
  connected : ∀ x y, (∃ c, s.paths.get? (x, y) = some c) ↔ s.records.Knows x ∧ ReflTransGen E x y
  own : ∀ x, s.records.Knows x → s.paths.get? (x, x) = some 0
  closes : s.nodeCount ≤ UInt32.size → s.paths.Closes s.records.Knows E

namespace Outlines

theorem empty : ({} : Contents k).Outlines fun _ _ => False where
  ends _ _ h := h.elim
  acyclic x h := by
    obtain ⟨_, h, -⟩ := TransGen.head'_iff.1 h
    exact h
  connected x y := by simp [records, Dag.Knows, Dag.node?]
  own x h := by simp [records, Dag.Knows, Dag.node?] at h
  closes _ := ⟨fun _ _ h => h.elim, fun x y n => by
    simp [DepthMap.distance?, records, Dag.Knows, Dag.node?]⟩

theorem knows_of_row (h : s.Outlines E) (hrow : s.paths.get? (x, y) = some c) :
    s.records.Knows x ∧ s.records.Knows y := by
  obtain ⟨hx, hxy⟩ := (h.connected x y).1 ⟨c, hrow⟩
  exact ⟨hx, h.knows hx hxy⟩

theorem not_reflTransGen (h : s.Outlines E) (hx : s.records.Knows x)
    (hnone : s.paths.get? (x, y) = none) : ¬ ReflTransGen E x y := by
  intro hxy
  obtain ⟨c, hc⟩ := (h.connected x y).2 ⟨hx, hxy⟩
  exact Option.some_ne_none c (hc.symm.trans hnone)

/-- A row of depth 1 connects two nodes. -/
theorem transGen_of_row (h : s.Outlines E) (hrow : s.paths.get? (x, y) = some 1) :
    TransGen E x y := by
  obtain ⟨hx, hxy⟩ := (h.connected x y).1 ⟨1, hrow⟩
  rcases reflTransGen_iff_eq_or_transGen.1 hxy with rfl | hxy
  · have hown := h.own y hx
    rw [hrow] at hown
    cases hown
  · exact hxy

/-! ### Depths -/

section Depths

variable (h : s.Outlines E) (hcount : s.nodeCount ≤ UInt32.size)

include h hcount

theorem depth_lt (hrow : s.paths.get? (x, y) = some c) : c.toNat < s.nodeCount := by
  obtain ⟨hx, hd⟩ := (h.closes hcount).get?_eq_some.1 hrow
  exact h.walk_lt hx hd.1

/-- Two rows on both sides of a new edge make up a walk over it. -/
theorem over_lt (ha : s.records.Knows a) (hd : s.records.Knows d) (hda : ¬ ReflTransGen E d a)
    {u w : UInt32} (hup : s.paths.get? (x, a) = some u) (hdown : s.paths.get? (d, y) = some w) :
    u.toNat + 1 + w.toNat < s.nodeCount := by
  obtain ⟨hx, hu⟩ := (h.closes hcount).get?_eq_some.1 hup
  obtain ⟨-, hw⟩ := (h.closes hcount).get?_eq_some.1 hdown
  exact (h.join ha hd hda).walk_lt hx (hu.1.join hw.1)

end Depths

/-! ### Changes of nodes and edges -/

theorem of_nodes (h : s.Outlines E) (hs : s.records.WellFormed)
    (hknows : ∀ x, t.records.Knows x ↔ s.records.Knows x) (hpaths : t.paths = s.paths) :
    t.Outlines E := by
  have hnodes : t.records.Knows = s.records.Knows := funext fun x => propext (hknows x)
  have hle := nodeCount_le hs fun x => (hknows x).2
  constructor
  case toSpans => exact ⟨hnodes ▸ h.ends, h.acyclic⟩
  all_goals rw [hnodes, hpaths]
  case connected => exact h.connected
  case own => exact h.own
  case closes => exact fun hcount => h.closes (hle.trans hcount)

theorem insert (h : s.Outlines E) (hs : s.records.WellFormed) (hnew : ¬ s.records.Knows node.id) :
    Outlines { s with
      active := s.active.insert node.id node
      paths := s.paths.insert (node.id, node.id) 0 } E := by
  have hknows : ∀ x, ({ s with
      active := s.active.insert node.id node
      paths := s.paths.insert (node.id, node.id) 0 } : Contents k).records.Knows x ↔
        x = node.id ∨ s.records.Knows x := s.records.knows_write node
  have hle := nodeCount_le hs fun x hx => (hknows x).2 (.inr hx)
  constructor
  case toSpans =>
    refine ⟨fun x y e => ?_, h.acyclic⟩
    exact (h.ends x y e).imp (fun hx => (hknows x).2 (.inr hx)) fun hy => (hknows y).2 (.inr hy)
  case connected =>
    intro x y
    rw [hknows, Table.get?_insert]
    split
    case isTrue hq =>
      obtain ⟨rfl, rfl⟩ := Prod.mk.inj hq
      exact iff_of_true ⟨0, rfl⟩ ⟨.inl rfl, .refl⟩
    case isFalse hq =>
      rw [h.connected]
      refine and_congr_left fun hxy => (or_iff_right ?_).symm
      rintro rfl
      rcases ReflTransGen.cases_head hxy with rfl | ⟨z, e, -⟩
      · exact hq rfl
      · exact hnew (h.ends _ z e).1
  case own =>
    intro x hx
    rw [Table.get?_insert]
    split
    case isTrue => rfl
    case isFalse hq => exact h.own x (((hknows x).1 hx).resolve_left fun e => hq (by rw [e]))
  case closes =>
    intro hcount
    rw [funext fun x => propext (hknows x)]
    exact (h.closes (hle.trans hcount)).insert hnew

theorem link (h : s.Outlines E) (ha : s.records.Knows a) (hd : s.records.Knows d)
    (hda : ¬ ReflTransGen E d a) :
    Outlines { s with paths := linked a d s.paths } (Joined E a d) where
  toSpans := ⟨(h.join ha hd hda).ends, (h.join ha hd hda).acyclic⟩
  connected x y := by
    rw [get?_linked, exists_merge_min_iff, h.connected, h.connected, h.connected,
      reflTransGen_joined_iff hda, and_iff_right hd, and_assoc, ← and_or_left]
    rfl
  own x hx := by
    -- No way leads from a node over the new edge back to the node.
    have hover : ((s.paths.get? (x, a)).bind fun u =>
        (s.paths.get? (d, x)).map fun w => u + 1 + w) = none := by
      rw [Option.eq_none_iff_forall_ne_some]
      intro c hc
      obtain ⟨u, hu, hw⟩ := Option.bind_eq_some_iff.1 hc
      obtain ⟨w, hw, -⟩ := Option.map_eq_some_iff.1 hw
      exact hda (((h.connected d x).1 ⟨w, hw⟩).2.trans ((h.connected x a).1 ⟨u, hu⟩).2)
    rw [get?_linked, hover, h.own x hx]
    rfl
  closes hcount :=
    (h.closes hcount).link (get?_linked a d s.paths) hd hda
      (fun hx hk hj => ((h.join ha hd hda).walk_lt hx (hk.1.join hj.1)).trans_le hcount) ha

end Outlines

/-! ## Repairs -/

/-- The contents without the rows of some pairs, or without nodes and the rows at them. -/
structure Trims (s t : Contents k) : Prop where
  knows : ∀ x, t.records.Knows x → s.records.Knows x
  rows : ∀ x y c, t.paths.get? (x, y) = some c →
    s.paths.get? (x, y) = some c ∧ t.records.Knows x ∧ t.records.Knows y
  own : ∀ x, t.records.Knows x → t.paths.get? (x, x) = some 0

/-- The contents with the closure of their rows. -/
def closed (s : Contents k) : Contents k := { s with paths := Closure.transitiveClosure s.rows }

/-- The contents without a node and the rows at it. -/
def without (s : Contents k) (id : NodeId k) : Contents k where
  active := s.active.erase id
  archived := s.archived.erase id
  paths := s.paths.filter fun pair _ => !(pair.1 == id) && !(pair.2 == id)

theorem knows_without : (s.without id).records.Knows x ↔ x ≠ id ∧ s.records.Knows x :=
  s.records.knows_drop id x

theorem get?_without : (s.without id).paths.get? (x, y) = some c ↔
    x ≠ id ∧ y ≠ id ∧ s.paths.get? (x, y) = some c := by
  rw [without, Table.get?_filter, Option.filter_eq_some_iff]
  simp [and_comm, and_assoc]

theorem Outlines.trims_without (h : s.Outlines E) (id : NodeId k) : s.Trims (s.without id) where
  knows x hx := (knows_without.1 hx).2
  rows x y c hrow := by
    obtain ⟨hx, hy, hrow⟩ := get?_without.1 hrow
    obtain ⟨hknows, hknows'⟩ := h.knows_of_row hrow
    exact ⟨hrow, knows_without.2 ⟨hx, hknows⟩, knows_without.2 ⟨hy, hknows'⟩⟩
  own x hx := by
    obtain ⟨hne, hknows⟩ := knows_without.1 hx
    exact get?_without.2 ⟨hne, hne, h.own x hknows⟩

theorem Outlines.trims_erase (h : s.Outlines E) (hrow : s.paths.get? (a, d) = some 1) :
    s.Trims { s with paths := s.paths.erase (a, d) } where
  knows x hx := hx
  rows x y c hget := by
    have hget : s.paths.get? (x, y) = some c := Table.get?_of_erase hget
    exact ⟨hget, h.knows_of_row hget⟩
  own x hx := by
    have hne : (x, x) ≠ (a, d) := fun e => by
      rw [← e, h.own x hx] at hrow
      cases hrow
    rw [Table.get?_erase_of_ne hne]
    exact h.own x hx

section Trimmed

variable (h : s.Outlines E) (ht : s.Trims t)

include ht

theorem Trims.mem_nodes : x ∈ (Closure.nodes t.rows).keys ↔ t.records.Knows x := by
  have hrow : ∀ {x y c}, ⟨x, y, c⟩ ∈ t.rows → t.records.Knows x ∧ t.records.Knows y :=
    fun hp => (ht.rows _ _ _ (DepthMap.mk_mem_rows.1 hp)).2
  rw [Closure.mem_nodes]
  constructor
  · rintro (⟨y, hp⟩ | ⟨y, hp⟩ | ⟨y, hp⟩)
    · exact (hrow hp).1
    · exact (hrow hp).1
    · exact (hrow hp).2
  · exact fun hx => .inl ⟨x, DepthMap.mk_mem_rows.2 (ht.own x hx)⟩

include h

/-- The rows of depth 1 that are left make no cycle, as each connects its nodes. -/
theorem Trims.spans : t.Spans (Closure.Edge t.rows) where
  ends x y e := (ht.rows x y 1 (DepthMap.mk_mem_rows.1 e)).2
  acyclic x hx := by
    refine h.acyclic x (TransGen.closed (fun x y e => ?_) x x hx)
    exact h.transGen_of_row (ht.rows x y 1 (DepthMap.mk_mem_rows.1 e)).1

theorem Trims.closed : t.closed.Outlines (Closure.Edge t.rows) where
  toSpans := ⟨(ht.spans h).ends, (ht.spans h).acyclic⟩
  connected x y := by
    have hsome : (∃ c, (Closure.transitiveClosure t.rows).get? (x, y) = some c) ↔
        t.records.Knows x ∧ ReflTransGen (Closure.Edge t.rows) x y := by
      simp only [Closure.get?_transitiveClosure, ht.mem_nodes, reflTransGen_iff_isDistance]
      constructor
      · rintro ⟨-, hx, n, hd, -⟩
        exact ⟨hx, n, hd⟩
      · rintro ⟨hx, n, hd⟩
        exact ⟨_, hx, n, hd, rfl⟩
    exact hsome
  own x hx := Closure.get?_transitiveClosure.2 ⟨ht.mem_nodes.2 hx, 0, .self x, rfl⟩
  closes hcount := by
    have hlt : ∀ x ∈ (Closure.nodes t.rows).keys, ∀ n y,
        IsDistance (Closure.Edge t.rows) n x y → n < UInt32.size := fun x hx n y hd =>
      ((ht.spans h).walk_lt (ht.mem_nodes.1 hx) hd.1).trans_le hcount
    have hcloses := Closure.closes_of_lt_size hlt
    rwa [funext fun x => propext (ht.mem_nodes (x := x))] at hcloses

/-- No sum that a repair forms comes to the number of nodes there were. -/
theorem Trims.closureWithin :
    Closure.closureWithin (s.nodeCount - 1) t.rows = some (Closure.transitiveClosure t.rows) := by
  have hspans : s.Spans (Closure.Edge t.rows) :=
    ⟨fun x y e => ((ht.spans h).ends x y e).imp (ht.knows x) (ht.knows y), (ht.spans h).acyclic⟩
  refine Closure.closureWithin_eq fun x hx m y hd => Nat.le_sub_one_of_lt ?_
  exact hspans.walk_lt (ht.knows x (ht.mem_nodes.1 hx)) hd.1

end Trimmed

end Contents

/-! ## What work makes of contents -/

namespace Work

variable {s : MemoryStore k} {t t' : Contents k} {id a d : NodeId k} {node : Node k}

theorem add_eq_ok {u : Unit} (h : add node s t = .ok (u, t')) :
    ¬ t.records.Knows node.id ∧
      t' = { t with
        active := t.active.insert node.id node
        paths := t.paths.insert (node.id, node.id) 0 } := by
  obtain ⟨taken, t₁, hask, h⟩ := bind_eq_ok h
  cases ask_eq_ok hask
  by_cases hid : t.hasId node.id = true
  · rw [if_pos hid] at h
    cases h
  rw [if_neg hid] at h
  obtain ⟨owner, t₂, hask, h⟩ := bind_eq_ok h
  cases ask_eq_ok hask
  by_cases howner : (t.ownerOf node.code).isSome = true
  · rw [if_pos howner] at h
    cases h
  rw [if_neg howner] at h
  obtain ⟨_, t₃, hask, h⟩ := bind_eq_ok h
  have hinsert := ask_eq_ok hask
  rw [Contents.perform, Contents.insertNode, if_neg hid, if_neg howner] at hinsert
  obtain rfl := (Prod.mk.inj hinsert).2
  have hrow := ask_eq_ok h
  rw [Contents.perform, Contents.insertPaths, Contents.insertRows] at hrow
  by_cases hown : t.paths.contains (Path.self node.id).pair = true
  · rw [if_pos hown] at hrow
    cases hrow
  · rw [if_neg hown] at hrow
    cases hrow
    exact ⟨fun hknows => hid (Contents.hasId_iff.2 hknows), rfl⟩

theorem requireNode_eq_ok {u : Unit} (h : requireNode id s t = .ok (u, t')) :
    t = t' ∧ t.records.Knows id := by
  obtain ⟨found, t₁, hask, h⟩ := bind_eq_ok h
  cases ask_eq_ok hask
  cases hnode : t.active.get? id with
  | none =>
    rw [hnode] at h
    cases h
  | some node =>
    rw [hnode] at h
    exact ⟨(Prod.mk.inj (Except.ok.inj h)).2, node, Dag.node?_of_active hnode⟩

theorem hasEdge_eq_ok {b : Bool} (h : hasEdge a d s t = .ok (b, t')) :
    t = t' ∧ (b = true → t.paths.get? (a, d) = some 1) := by
  obtain ⟨row, t₁, hask, h⟩ := bind_eq_ok h
  cases ask_eq_ok hask
  obtain ⟨rfl, rfl⟩ := Prod.mk.inj (Except.ok.inj h)
  refine ⟨rfl, fun hb => ?_⟩
  obtain ⟨row, hrow, hdirect⟩ := (Option.any_eq_true _ _).1 hb
  obtain ⟨depth, hdepth, rfl⟩ := Option.map_eq_some_iff.1 hrow
  rw [hdepth, show depth = 1 by simpa [Path.isDirect] using hdirect]

/-- An edge that is not refused connects two nodes, the second of which does not lead to the
first. -/
theorem link_eq_ok {u : Unit} (h : link a d s t = .ok (u, t')) :
    t.records.Knows a ∧ t.records.Knows d ∧ t.paths.get? (d, a) = none ∧
      t' = { t with paths := Contents.linked a d t.paths } := by
  obtain ⟨_, t₁, hreq, h⟩ := bind_eq_ok h
  obtain ⟨rfl, hd⟩ := requireNode_eq_ok hreq
  obtain ⟨_, t₂, hreq, h⟩ := bind_eq_ok h
  obtain ⟨rfl, ha⟩ := requireNode_eq_ok hreq
  obtain ⟨upper, t₃, hask, h⟩ := bind_eq_ok h
  cases ask_eq_ok hask
  by_cases hcycle : ((t.rows.filter fun p => p.descendant == a).any fun p => p.ancestor == d) = true
  · rw [if_pos hcycle] at h
    cases h
  rw [if_neg hcycle] at h
  obtain ⟨edge, t₄, hedge, h⟩ := bind_eq_ok h
  obtain ⟨rfl, -⟩ := hasEdge_eq_ok hedge
  cases edge with
  | true => cases h
  | false =>
    obtain ⟨lower, t₅, hask, h⟩ := bind_eq_ok h
    cases ask_eq_ok hask
    obtain ⟨existing, t₆, hask, h⟩ := bind_eq_ok h
    cases ask_eq_ok hask
    obtain ⟨_, t₇, hask, h⟩ := bind_eq_ok h
    cases (Contents.insertPaths_linkPlan t a d).symm.trans (ask_eq_ok hask)
    obtain ⟨-, rfl⟩ := Prod.mk.inj (ask_eq_ok h)
    refine ⟨ha, hd, ?_, rfl⟩
    rw [Option.eq_none_iff_forall_ne_some]
    intro c hc
    obtain ⟨p, hp, hpd⟩ := Contents.exists_upper_iff.2 ⟨c, hc⟩
    exact hcycle (List.any_eq_true.2 ⟨p, hp, beq_iff_eq.2 hpd⟩)

section Repairs

variable (hs : s.refusal = none)

include hs

theorem unlink_eq_ok {leafOnly : Bool} {u : Unit} (h : unlink leafOnly a d s t = .ok (u, t')) :
    t.paths.get? (a, d) = some 1 ∧
      t' = Contents.closed { t with paths := t.paths.erase (a, d) } := by
  have hcut : ∀ {u}, (do
      unless ← hasEdge a d do refuse (.notFound (.path a d))
      let _ ← ask (.deletePaths [Path.direct a d])
      prune : Work k Unit) s t = .ok (u, t') → t.paths.get? (a, d) = some 1 ∧
        t' = Contents.closed { t with paths := t.paths.erase (a, d) } := by
    intro u h
    obtain ⟨edge, t₁, hedge, h⟩ := bind_eq_ok h
    obtain ⟨rfl, hrow⟩ := hasEdge_eq_ok hedge
    cases edge with
    | false => cases h
    | true =>
      obtain ⟨count, t₂, hask, h⟩ := bind_eq_ok h
      cases ask_eq_ok hask
      rw [prune_eq hs] at h
      exact ⟨hrow rfl, (Prod.mk.inj (Except.ok.inj h)).2.symm⟩
  cases leafOnly with
  | false => exact hcut h
  | true =>
    obtain ⟨rows, t₁, hask, h⟩ := bind_eq_ok h
    cases ask_eq_ok hask
    by_cases hleaf : ((t.rows.filter fun p => p.ancestor == d).any fun p => !p.isSelf) = true
    · rw [if_pos hleaf] at h
      cases h
    · rw [if_neg hleaf] at h
      exact hcut h

theorem detach_eq_ok {touched : List (NodeId k)} (h : detach id s t = .ok (touched, t')) :
    t' = (t.deletePathsOf id).2.closed := by
  obtain ⟨ids, t₁, htouched, h⟩ := bind_eq_ok h
  obtain ⟨rows, t₂, hask, htouched⟩ := bind_eq_ok htouched
  cases ask_eq_ok hask
  cases htouched
  obtain ⟨count, t₃, hask, h⟩ := bind_eq_ok h
  cases ask_eq_ok hask
  obtain ⟨_, t₄, hprune, h⟩ := bind_eq_ok h
  rw [prune_eq hs] at hprune
  cases hprune
  exact (Prod.mk.inj (Except.ok.inj h)).2.symm

theorem delete_eq_ok {touched : List (NodeId k)} (h : delete id s t = .ok (touched, t')) :
    t' = (t.without id).closed := by
  obtain ⟨found, t₁, hask, h⟩ := bind_eq_ok h
  cases ask_eq_ok hask
  cases hfound : t.active.contains id with
  | false =>
    rw [hfound] at h
    cases h
  | true =>
    rw [hfound] at h
    obtain ⟨archived, t₂, hask, h⟩ := bind_eq_ok h
    cases ask_eq_ok hask
    exact detach_eq_ok hs h

/-- A purge finds no archived node and leaves all as it is, or removes one. -/
theorem purge_eq_or (ht : t.records.WellFormed) {touched : Option (List (NodeId k))}
    (h : purge id s t = .ok (touched, t')) : t' = t ∨ t' = (t.without id).closed := by
  obtain ⟨found, t₁, hask, h⟩ := bind_eq_ok h
  cases ask_eq_ok hask
  cases hnode : t.archived.get? id with
  | none =>
    rw [hnode] at h
    exact .inl (Prod.mk.inj (Except.ok.inj h)).2.symm
  | some node =>
    rw [hnode] at h
    obtain ⟨archived, t₂, hask, h⟩ := bind_eq_ok h
    cases ask_eq_ok hask
    obtain ⟨ids, t₃, hdetach, h⟩ := bind_eq_ok h
    obtain ⟨-, rfl⟩ := Prod.mk.inj (Except.ok.inj h)
    have hactive : t.active.erase id = t.active := Table.erase_eq_self (ht.not_active hnode)
    refine .inr ((detach_eq_ok hs hdetach).trans ?_)
    rw [Contents.without, hactive]
    rfl

end Repairs

end Work

/-- The work of every change leaves rows that outline some graph. -/
theorem Change.outlines {s : MemoryStore k} (hs : s.refusal = none) {t t' : Contents k}
    (ht : t.records.WellFormed) {E : NodeId k → NodeId k → Prop} (h : t.Outlines E) (c : Change k)
    {r : c.Answer} (hw : c.work s t = .ok (r, t')) : ∃ F, t'.Outlines F := by
  cases c with
  | add node =>
    obtain ⟨hnew, rfl⟩ := Work.add_eq_ok hw
    exact ⟨E, h.insert ht hnew⟩
  | update node =>
    obtain ⟨current, hcurrent, rfl, -⟩ := Work.update_eq_ok hw
    refine ⟨E, h.of_nodes ht (fun x => (t.records.knows_write node x).trans ?_) rfl⟩
    refine or_iff_right_of_imp ?_
    rintro rfl
    exact ⟨current, Dag.node?_of_active hcurrent⟩
  | link a d =>
    obtain ⟨ha, hd, hnone, rfl⟩ := Work.link_eq_ok hw
    exact ⟨_, h.link ha hd (h.not_reflTransGen hd hnone)⟩
  | unlink leafOnly a d =>
    obtain ⟨hrow, rfl⟩ := Work.unlink_eq_ok hs hw
    exact ⟨_, (h.trims_erase hrow).closed h⟩
  | archive id =>
    rw [Change.work, Work.archive_apply hs] at hw
    cases hnode : t.active.get? id with
    | none =>
      rw [hnode] at hw
      cases hw
    | some node =>
      rw [hnode] at hw
      cases hw
      refine ⟨E, h.of_nodes ht (fun x => ?_) rfl⟩
      exact exists_congr fun n => by rw [← Dag.node?_archive (g := t.records) hnode x]; rfl
  | recover id =>
    rw [Change.work, Work.recover_apply hs] at hw
    cases hnode : t.archived.get? id with
    | none =>
      rw [hnode] at hw
      cases hw
    | some node =>
      rw [hnode] at hw
      cases hw
      refine ⟨E, h.of_nodes ht (fun x => ?_) rfl⟩
      exact exists_congr fun n => by rw [← Dag.node?_recover ht hnode x]; rfl
  | purge id =>
    rcases Work.purge_eq_or hs ht hw with rfl | rfl
    · exact ⟨E, h⟩
    · exact ⟨_, (h.trims_without id).closed h⟩
  | delete id =>
    obtain rfl := Work.delete_eq_ok hs hw
    exact ⟨_, (h.trims_without id).closed h⟩

end Lineage

import Lineage.Proofs.Distance
import Lineage.Proofs.Operation
import Lineage.Proofs.Table

/-!
# The graph behind a hierarchy

A `Dag k` is what a hierarchy is about: active nodes, archived nodes and a set of edges. It knows
nothing of closure rows, stores or caches, and serves the same operations.

* `Dag.insert`, `overwrite`, `link`, `unlink`, `archive`, `recover`, `purge`, `delete`: the changes,
  each with its refusals in their order.
* `Dag.serve`, `Dag.run`: operations in their surroundings.
* `Dag.WellFormed`: ids and codes are unique, edges have ends and make no cycle. Every change keeps
  it.
-/

open Relation

namespace Lineage

/-- Nodes, active and archived, and the edges between them. -/
structure Dag (k : Kind) where
  active : Table (NodeId k) (Node k) := ∅
  archived : Table (NodeId k) (Node k) := ∅
  edge : NodeId k → NodeId k → Prop := fun _ _ => False

namespace Dag

variable {k : Kind}

/-- The node with an id, active or archived. -/
def node? (g : Dag k) (id : NodeId k) : Option (Node k) :=
  (g.active.get? id).or (g.archived.get? id)

/-- Whether a node has the id. -/
def Knows (g : Dag k) (id : NodeId k) : Prop := ∃ n, g.node? id = some n

/-- Whether the node with an id has the code. -/
def HasCode (g : Dag k) (id : NodeId k) (code : String) : Prop :=
  ∃ n, g.node? id = some n ∧ n.code = code

/-! ## Changes -/

open Classical in
/-- Add an active node. -/
noncomputable def insert (g : Dag k) (node : Node k) : Except (HierarchyError k) Unit × Dag k :=
  if g.Knows node.id then (.error (.conflict (.id node.id)), g)
  else if ∃ id, g.HasCode id node.code then (.error (.conflict (.code node.code)), g)
  else (.ok (), { g with active := g.active.insert node.id node })

open Classical in
/-- Overwrite an active node. -/
noncomputable def overwrite (g : Dag k) (node : Node k) : Except (HierarchyError k) Unit × Dag k :=
  if g.active.get? node.id = none then (.error (.notFound (.node node.id)), g)
  else if ∃ id, id ≠ node.id ∧ g.HasCode id node.code then
    (.error (.conflict (.code node.code)), g)
  else (.ok (), { g with active := g.active.insert node.id node })

open Classical in
/-- Add an edge between active nodes. -/
noncomputable def link (g : Dag k) (a d : NodeId k) : Except (HierarchyError k) Unit × Dag k :=
  if g.active.get? d = none then (.error (.notFound (.node d)), g)
  else if g.active.get? a = none then (.error (.notFound (.node a)), g)
  else if ReflTransGen g.edge d a then (.error (.cycle a d), g)
  else if g.edge a d then (.error (.duplicatePath a d), g)
  else (.ok (), { g with edge := Joined g.edge a d })

open Classical in
/-- Remove an edge; with `leafOnly` only one to a node without edges of its own. -/
noncomputable def unlink (g : Dag k) (leafOnly : Bool) (a d : NodeId k) :
    Except (HierarchyError k) Unit × Dag k :=
  if leafOnly ∧ ∃ y, g.edge d y then (.error (.descendantHasDescendant d), g)
  else if g.edge a d then (.ok (), { g with edge := fun x y => g.edge x y ∧ (x, y) ≠ (a, d) })
  else (.error (.notFound (.path a d)), g)

/-- Archive an active node. -/
def archive (g : Dag k) (id : NodeId k) : Except (HierarchyError k) Unit × Dag k :=
  match g.active.get? id with
  | none => (.error (.notFound (.node id)), g)
  | some node =>
    (.ok (), { g with active := g.active.erase id, archived := g.archived.insert id node })

/-- Make an archived node active again. -/
def recover (g : Dag k) (id : NodeId k) : Except (HierarchyError k) Unit × Dag k :=
  match g.archived.get? id with
  | none => (.error (.notFound (.archived id)), g)
  | some node =>
    (.ok (), { g with active := g.active.insert id node, archived := g.archived.erase id })

/-- The graph without a node and the edges at it. -/
def drop (g : Dag k) (id : NodeId k) : Dag k where
  active := g.active.erase id
  archived := g.archived.erase id
  edge x y := g.edge x y ∧ x ≠ id ∧ y ≠ id

/-- Drop a node if it is archived. -/
def purge (g : Dag k) (id : NodeId k) : Except (HierarchyError k) PurgeOutcome × Dag k :=
  match g.archived.get? id with
  | none => (.ok .notArchived, g)
  | some _ => (.ok .purged, g.drop id)

/-- Drop an active node. -/
def delete (g : Dag k) (id : NodeId k) : Except (HierarchyError k) Unit × Dag k :=
  match g.active.get? id with
  | none => (.error (.notFound (.node id)), g)
  | some _ => (.ok (), g.drop id)

/-! ## Operations -/

/-- The answer of a change. -/
def replied {α : Type} (reply : α → Reply k) (r : Except (HierarchyError k) α × Dag k) :
    Except (Failure k) (Reply k) × Dag k :=
  ((r.1.map reply).mapError .refused, r.2)

/-- A change for which a node must be out of use, as the guard says it. -/
def unused (g : Dag k) (env : Surroundings k) (id : NodeId k)
    (change : Except (HierarchyError k) Unit × Dag k) :
    Except (HierarchyError k) Unit × Dag k :=
  match env.consumersOf id with
  | .error e => (.error (.store (.unavailable e.message)), g)
  | .ok [] => change
  | .ok (c :: cs) => (.error (.inUse id ((c :: cs).map (·.code))), g)

open Classical in
/-- Do what an operation asks for. -/
noncomputable def serve (g : Dag k) (leafOnly : Bool) (env : Surroundings k) :
    Operation k → Except (Failure k) (Reply k) × Dag k
  | .add new =>
    match new.flaw? with
    | some flaw => (.error (.refused (.validation flaw.text)), g)
    | none =>
      let node := new.toNode (env.idFor new)
      replied (fun _ => .node node) (g.insert node)
  | .update node =>
    match node.flaw? with
    | some flaw => (.error (.refused (.validation flaw.text)), g)
    | none => replied (fun _ => .node node) (g.overwrite node)
  | .link a d => replied (fun _ => .done) (g.link a d)
  | .unlink a d => replied (fun _ => .done) (g.unlink leafOnly a d)
  | .archive id => replied (fun _ => .done) (g.unused env id (g.archive id))
  | .recover id => replied (fun _ => .done) (g.recover id)
  | .purge id =>
    match env.consumersOf id with
    | .error e => (.error (.refused (.store (.unavailable e.message))), g)
    | .ok [] => replied .purge (g.purge id)
    | .ok (c :: cs) => (.ok (.purge (.inUse ((c :: cs).map (·.code)))), g)
  | .delete id => replied (fun _ => .done) (g.unused env id (g.delete id))
  | .deleteByCode code =>
    if Text.isBlankText code then (.ok .done, g)
    else
      match g.active.values.find? fun n => n.code == code with
      | none => (.error (.refused (.notFound (.code code))), g)
      | some node => replied (fun _ => .done) (g.unused env node.id (g.delete node.id))

/-- Do what operations ask for, one after the other. -/
noncomputable def run (g : Dag k) (leafOnly : Bool) :
    List (Surroundings k × Operation k) → List (Except (Failure k) (Reply k)) × Dag k
  | [] => ([], g)
  | (env, op) :: rest =>
    let (answer, g) := g.serve leafOnly env op
    let (answers, g) := run g leafOnly rest
    (answer :: answers, g)

/-! ## Well-formedness -/

/-- Every node stands under its own id and in one lifecycle only, no two nodes have one code, edges
have nodes at their ends, and there are no cycles. -/
structure WellFormed (g : Dag k) : Prop where
  own : ∀ id n, g.node? id = some n → n.id = id
  apart : ∀ id, g.active.get? id = none ∨ g.archived.get? id = none
  code_unique : ∀ x y code, g.HasCode x code → g.HasCode y code → x = y
  ends : ∀ x y, g.edge x y → g.Knows x ∧ g.Knows y
  acyclic : Acyclic g.edge

section Nodes

variable {g : Dag k} {id : NodeId k} {node : Node k}

theorem node?_of_active (h : g.active.get? id = some node) : g.node? id = some node := by
  rw [node?, h, Option.some_or]

theorem knows_of_active (h : g.active.get? id ≠ none) : g.Knows id :=
  (Option.ne_none_iff_exists'.1 h).imp fun _ => node?_of_active

theorem WellFormed.node?_of_archived (hg : g.WellFormed) (h : g.archived.get? id = some node) :
    g.node? id = some node := by
  have hnone := (hg.apart id).resolve_right (by rw [h]; exact Option.some_ne_none _)
  rw [node?, hnone, Option.none_or, h]

theorem WellFormed.not_archived (hg : g.WellFormed) (h : g.active.get? id = some node) :
    g.archived.get? id = none :=
  (hg.apart id).resolve_left (by rw [h]; exact Option.some_ne_none _)

theorem WellFormed.not_active (hg : g.WellFormed) (h : g.archived.get? id = some node) :
    g.active.get? id = none :=
  (hg.apart id).resolve_right (by rw [h]; exact Option.some_ne_none _)

theorem not_knows_iff : ¬ g.Knows id ↔ g.active.get? id = none ∧ g.archived.get? id = none := by
  rw [Knows, ← Option.isSome_iff_exists, Option.not_isSome_iff_eq_none, node?,
    Option.or_eq_none_iff]

theorem node?_write (g : Dag k) (node : Node k) (id : NodeId k) :
    ({ g with active := g.active.insert node.id node } : Dag k).node? id =
      if id = node.id then some node else g.node? id := by
  rw [node?, Table.get?_insert]
  split <;> rfl

theorem node?_drop (g : Dag k) (id x : NodeId k) :
    (g.drop id).node? x = if x = id then none else g.node? x := by
  simp only [node?, drop, Table.get?_erase]
  split <;> rfl

theorem knows_write (g : Dag k) (node : Node k) (x : NodeId k) :
    ({ g with active := g.active.insert node.id node } : Dag k).Knows x ↔
      x = node.id ∨ g.Knows x := by
  rw [Knows, node?_write]
  by_cases hx : x = node.id <;> simp [hx, Knows]

theorem knows_drop (g : Dag k) (id x : NodeId k) :
    (g.drop id).Knows x ↔ x ≠ id ∧ g.Knows x := by
  rw [Knows, node?_drop]
  by_cases hx : x = id <;> simp [hx, Knows]

theorem node?_archive (h : g.active.get? id = some node) (x : NodeId k) :
    ({ g with active := g.active.erase id, archived := g.archived.insert id node } :
      Dag k).node? x = g.node? x := by
  simp only [node?, Table.get?_erase, Table.get?_insert]
  split
  case isTrue hx => rw [hx, h]; rfl
  case isFalse => rfl

theorem node?_recover (hg : g.WellFormed) (h : g.archived.get? id = some node) (x : NodeId k) :
    ({ g with active := g.active.insert id node, archived := g.archived.erase id } :
      Dag k).node? x = g.node? x := by
  simp only [node?, Table.get?_erase, Table.get?_insert]
  split
  case isTrue hx => rw [hx, hg.not_active h, h]; rfl
  case isFalse => rfl

end Nodes

theorem WellFormed.empty : ({} : Dag k).WellFormed where
  own _ _ h := by simp [node?] at h
  apart _ := .inl rfl
  code_unique _ _ _ h := by simp [HasCode, node?] at h
  ends _ _ h := h.elim
  acyclic x h := by
    obtain ⟨_, h, -⟩ := TransGen.head'_iff.1 h
    exact h

namespace WellFormed

variable {g g' : Dag k} {id a d : NodeId k} {node : Node k}

/-- A graph with the same nodes in other lifecycles. -/
theorem relabel (hg : g.WellFormed) (hnode : ∀ x, g'.node? x = g.node? x)
    (hedge : g'.edge = g.edge)
    (hapart : ∀ id, g'.active.get? id = none ∨ g'.archived.get? id = none) : g'.WellFormed where
  own x n h := hg.own x n (hnode x ▸ h)
  apart := hapart
  code_unique x y c hx hy := by
    simp only [HasCode, hnode] at hx hy
    exact hg.code_unique x y c hx hy
  ends x y h := by
    simp only [Knows, hnode]
    exact hg.ends x y (hedge ▸ h)
  acyclic := hedge ▸ hg.acyclic

/-- A node may be written where no archived one stands, under a code that no other one has. -/
theorem write (hg : g.WellFormed) (hfree : g.archived.get? node.id = none)
    (hcode : ∀ x, x ≠ node.id → ¬ g.HasCode x node.code) :
    ({ g with active := g.active.insert node.id node } : Dag k).WellFormed where
  own x n h := by
    rw [node?_write] at h
    split at h
    case isTrue hx => rw [← Option.some.inj h, hx]
    case isFalse => exact hg.own x n h
  apart x := by
    rw [Table.get?_insert]
    split
    case isTrue hx => exact .inr (hx ▸ hfree)
    case isFalse => exact hg.apart x
  code_unique x y c hx hy := by
    have hold : ∀ x c, HasCode { g with active := g.active.insert node.id node } x c →
        x = node.id ∧ node.code = c ∨ x ≠ node.id ∧ g.HasCode x c := by
      rintro x c ⟨n, hn, hc⟩
      rw [node?_write] at hn
      split at hn
      case isTrue hx => exact .inl ⟨hx, by rw [Option.some.inj hn, hc]⟩
      case isFalse hx => exact .inr ⟨hx, n, hn, hc⟩
    rcases hold x c hx with ⟨rfl, rfl⟩ | ⟨hne, hx⟩ <;>
      rcases hold y _ hy with ⟨rfl, he⟩ | ⟨hne', hy⟩
    · rfl
    · exact absurd hy (hcode y hne')
    · exact absurd (he ▸ hx) (hcode x hne)
    · exact hg.code_unique x y c hx hy
  ends x y h := (hg.ends x y h).imp (fun hx => (g.knows_write node x).2 (.inr hx))
    fun hy => (g.knows_write node y).2 (.inr hy)
  acyclic := hg.acyclic

theorem knows_of_reflTransGen (hg : g.WellFormed) (ha : g.Knows a)
    (h : ReflTransGen g.edge a d) : g.Knows d := by
  rcases ReflTransGen.cases_tail h with rfl | ⟨x, -, e⟩
  · exact ha
  · exact (hg.ends x d e).2

theorem join (hg : g.WellFormed) (ha : g.Knows a) (hd : g.Knows d)
    (hda : ¬ ReflTransGen g.edge d a) :
    ({ g with edge := Joined g.edge a d } : Dag k).WellFormed where
  own := hg.own
  apart := hg.apart
  code_unique := hg.code_unique
  ends x y h := by
    rcases h with h | ⟨rfl, rfl⟩
    · exact hg.ends x y h
    · exact ⟨ha, hd⟩
  acyclic := hg.acyclic.joined hda

theorem cut (hg : g.WellFormed) :
    ({ g with edge := fun x y => g.edge x y ∧ (x, y) ≠ (a, d) } : Dag k).WellFormed where
  own := hg.own
  apart := hg.apart
  code_unique := hg.code_unique
  ends x y h := hg.ends x y h.1
  acyclic := hg.acyclic.mono fun _ _ h => h.1

theorem edgeless (hg : g.WellFormed) :
    ({ g with edge := fun _ _ => False } : Dag k).WellFormed where
  own := hg.own
  apart := hg.apart
  code_unique := hg.code_unique
  ends _ _ h := h.elim
  acyclic := hg.acyclic.mono fun _ _ h => h.elim

theorem drop (hg : g.WellFormed) (id : NodeId k) : (g.drop id).WellFormed where
  own x n h := by
    rw [node?_drop] at h
    split at h
    case isTrue => simp at h
    case isFalse => exact hg.own x n h
  apart x := by
    simp only [Dag.drop, Table.get?_erase]
    split
    case isTrue => exact .inl rfl
    case isFalse => exact hg.apart x
  code_unique x y c hx hy := by
    have hold : ∀ x, (g.drop id).HasCode x c → g.HasCode x c := by
      rintro x ⟨n, hn, hc⟩
      rw [node?_drop] at hn
      split at hn
      case isTrue => simp at hn
      case isFalse => exact ⟨n, hn, hc⟩
    exact hg.code_unique x y c (hold x hx) (hold y hy)
  ends x y h := by
    obtain ⟨e, hx, hy⟩ := h
    exact ⟨(g.knows_drop id x).2 ⟨hx, (hg.ends x y e).1⟩,
      (g.knows_drop id y).2 ⟨hy, (hg.ends x y e).2⟩⟩
  acyclic := hg.acyclic.mono fun _ _ h => h.1

theorem archive (hg : g.WellFormed) (h : g.active.get? id = some node) :
    ({ g with active := g.active.erase id, archived := g.archived.insert id node } :
      Dag k).WellFormed := by
  refine hg.relabel (node?_archive h) rfl fun x => ?_
  simp only [Table.get?_erase, Table.get?_insert]
  split
  case isTrue => exact .inl rfl
  case isFalse => exact hg.apart x

theorem recover (hg : g.WellFormed) (h : g.archived.get? id = some node) :
    ({ g with active := g.active.insert id node, archived := g.archived.erase id } :
      Dag k).WellFormed := by
  refine hg.relabel (node?_recover hg h) rfl fun x => ?_
  simp only [Table.get?_erase, Table.get?_insert]
  split
  case isTrue => exact .inr rfl
  case isFalse => exact hg.apart x

end WellFormed

/-! ## Views -/

/-- Whether a view is that of an active node, as things are. -/
def Shows (g : Dag k) (v : NodeView k) : Prop :=
  g.active.get? v.node.id = some v.node ∧ (v.hasDescendant = true ↔ ∃ y, g.edge v.node.id y)

theorem Shows.ext {g : Dag k} {v v' : NodeView k} (h : g.Shows v) (h' : g.Shows v')
    (hid : v.node.id = v'.node.id) : v = v' := by
  obtain ⟨n, b⟩ := v
  obtain ⟨n', b'⟩ := v'
  obtain rfl : n = n' := by
    have hn := h.1
    rw [hid, h'.1] at hn
    exact (Option.some.inj hn).symm
  exact congrArg (NodeView.mk n) (Bool.eq_iff_iff.2 (h.2.trans h'.2.symm))

/-! ## What a change leaves alone -/

/-- Whether a change left the active node with an id and the edges below it alone. -/
def Agrees (g g' : Dag k) (x : NodeId k) : Prop :=
  g'.active.get? x = g.active.get? x ∧ ∀ y, g'.edge x y ↔ g.edge x y

theorem Shows.agrees {g g' : Dag k} {v : NodeView k} (h : g.Shows v)
    (ha : g.Agrees g' v.node.id) : g'.Shows v :=
  ⟨ha.1.trans h.1, h.2.trans (exists_congr fun y => (ha.2 y).symm)⟩

section Agrees

variable (g : Dag k) {x : NodeId k}

theorem Agrees.refl : g.Agrees g x := ⟨rfl, fun _ => Iff.rfl⟩

theorem agrees_insert (node : Node k) (hx : x ≠ node.id) : g.Agrees (g.insert node).2 x := by
  unfold insert
  split_ifs
  · exact .refl g
  · exact .refl g
  · exact ⟨Table.get?_insert_of_ne hx .., fun _ => Iff.rfl⟩

theorem agrees_overwrite (node : Node k) (hx : x ≠ node.id) :
    g.Agrees (g.overwrite node).2 x := by
  unfold overwrite
  split_ifs
  · exact .refl g
  · exact .refl g
  · exact ⟨Table.get?_insert_of_ne hx .., fun _ => Iff.rfl⟩

theorem agrees_link (a d : NodeId k) (hx : x ≠ a) : g.Agrees (g.link a d).2 x := by
  unfold link
  split_ifs
  iterate 4 exact .refl g
  exact ⟨rfl, fun y => or_iff_left fun h => hx h.1⟩

theorem agrees_unlink (leafOnly : Bool) (a d : NodeId k) (hx : x ≠ a) :
    g.Agrees (g.unlink leafOnly a d).2 x := by
  unfold unlink
  split_ifs
  · exact .refl g
  · exact ⟨rfl, fun y => and_iff_left fun h => hx (Prod.mk.inj h).1⟩
  · exact .refl g

theorem agrees_archive (id : NodeId k) (hx : x ≠ id) : g.Agrees (g.archive id).2 x := by
  unfold archive
  split
  · exact .refl g
  · exact ⟨Table.get?_erase_of_ne hx .., fun _ => Iff.rfl⟩

theorem agrees_recover (id : NodeId k) (hx : x ≠ id) : g.Agrees (g.recover id).2 x := by
  unfold recover
  split
  · exact .refl g
  · exact ⟨Table.get?_insert_of_ne hx .., fun _ => Iff.rfl⟩

/-- What is not above a dropped node is left alone. -/
theorem agrees_drop (id : NodeId k) (hx : ¬ ReflTransGen g.edge x id) : g.Agrees (g.drop id) x := by
  have hne : x ≠ id := fun e => hx (e ▸ .refl)
  refine ⟨by rw [drop, Table.get?_erase_of_ne hne], fun y => and_iff_left_of_imp fun e => ?_⟩
  exact ⟨hne, fun he => hx (.single (he ▸ e))⟩

theorem agrees_purge (id : NodeId k) (hx : ¬ ReflTransGen g.edge x id) :
    g.Agrees (g.purge id).2 x := by
  unfold purge
  split
  · exact .refl g
  · exact g.agrees_drop id hx

theorem agrees_delete (id : NodeId k) (hx : ¬ ReflTransGen g.edge x id) :
    g.Agrees (g.delete id).2 x := by
  unfold delete
  split
  · exact .refl g
  · exact g.agrees_drop id hx

end Agrees

end Dag

end Lineage

import Lineage.Store.Memory

/-!
# Work within a transaction

`Work k α` is what an operation does between the beginning of a transaction and its commit: calls
to the store, and reasons to give up. Work that gives up leaves nothing behind.

* `Work.add`, `update`, `link`, `unlink`, `archive`, `recover`, `purge`, `delete`: the changes.
* `Work.viewById`, `viewByCode`, `page`, `slice`, `roots`, `children`, `descendants`: the lookups.
* `Work.prune`: make the closure rows agree with the direct edges again.
-/

namespace Lineage

/-- Calls to the transaction of a store, with an answer or a reason to give up. -/
abbrev Work (k : Kind) := ReaderT (MemoryStore k) (StateT (Contents k) (Except (HierarchyError k)))

namespace Work

variable {k : Kind}

/-- The answer to a call. A failure of the store becomes a reason to give up. -/
def ask {α : Type} (c : Call k α) (failed : StoreError → HierarchyError k := .store) : Work k α :=
  fun s t =>
    match s.answer c t with
    | (.ok a, t) => .ok (a, t)
    | (.error e, _) => .error (failed e)

/-- Give up. -/
def refuse {α : Type} (e : HierarchyError k) : Work k α := fun _ _ => .error e

/-- Begin a transaction on a store and do the work. -/
def run {α : Type} (w : Work k α) (s : MemoryStore k) :
    Except (HierarchyError k) (α × Contents k) :=
  match s.begin with
  | .ok t => w s t
  | .error e => .error (.store e)

/-! ## Changes -/

/-- Store a new node with its own row. Its id and code must be free. -/
def add (node : Node k) : Work k Unit := do
  if ← ask (.idExists node.id) then refuse (.conflict (.id node.id))
  if (← ask (.codeOwner node.code)).isSome then refuse (.conflict (.code node.code))
  ask (.insertNode node) .ofNodeWrite
  ask (.insertPaths [Path.self node.id])

/-- Overwrite a node. A new code must be free. -/
def update (node : Node k) : Work k Unit := do
  let some current ← ask (.findNode node.id) | refuse (.notFound (.node node.id))
  if current.code != node.code then
    if let some owner ← ask (.codeOwner node.code) then
      if owner != node.id then refuse (.conflict (.code node.code))
  unless ← ask (.updateNode node) do refuse (.notFound (.node node.id))

/-- Require an active node. -/
def requireNode (id : NodeId k) : Work k Unit := do
  if (← ask (.findNode id)).isNone then refuse (.notFound (.node id))

/-- Whether there is a direct edge. -/
def hasEdge (ancestor descendant : NodeId k) : Work k Bool := do
  return (← ask (.findPath ancestor descendant)).any Path.isDirect

/-- Add the edge from `ancestor` to `descendant`: every ancestor of the one gets to every descendant
of the other, at the least depth. -/
def link (ancestor descendant : NodeId k) : Work k Unit := do
  requireNode descendant
  requireNode ancestor
  let upper ← ask (.ancestorsOf ancestor)
  if upper.any fun p => p.ancestor == descendant then refuse (.cycle ancestor descendant)
  if ← hasEdge ancestor descendant then refuse (.duplicatePath ancestor descendant)
  let lower ← ask (.descendantsOf descendant)
  let existing ← ask (.pathsBetween (upper.map (·.ancestor)) (lower.map (·.descendant)))
  let plan := Closure.planLink (Closure.linkCandidates upper lower) existing
  ask (.insertPaths plan.insert)
  ask (.updateDepths plan.shorten)

/-- Make the closure rows those of their direct edges. -/
def prune : Work k Unit := do
  let fix := Closure.reconcile (← ask .allPaths)
  if fix.isEmpty then return ()
  let _ ← ask (.deletePaths fix.stale)
  ask (.insertPaths fix.missing)
  ask (.updateDepths fix.redepth)

/-- Remove the edge from `ancestor` to `descendant`, with the rows that exist through it only. With
`leafOnly` the descendant must have no descendants. -/
def unlink (leafOnly : Bool) (ancestor descendant : NodeId k) : Work k Unit := do
  if leafOnly then
    if (← ask (.descendantsOf descendant)).any fun p => !p.isSelf then
      refuse (.descendantHasDescendant descendant)
  unless ← hasEdge ancestor descendant do refuse (.notFound (.path ancestor descendant))
  let _ ← ask (.deletePaths [Path.direct ancestor descendant])
  prune

/-- Move a node to the archive; its rows stay. -/
def archive (id : NodeId k) : Work k Unit := do
  unless ← ask (.archiveNode id) do refuse (.notFound (.node id))

/-- Move a node back from the archive. -/
def recover (id : NodeId k) : Work k Unit := do
  unless ← ask (.restoreNode id) do refuse (.notFound (.archived id))

/-- A node and everything above it. -/
def withAncestors (id : NodeId k) : Work k (List (NodeId k)) := do
  let ids := (← ask (.ancestorsOf id)).map (·.ancestor)
  return if ids.contains id then ids else ids ++ [id]

/-- Remove the rows of a node that is gone. The answer lists the node and what was above it. -/
def detach (id : NodeId k) : Work k (List (NodeId k)) := do
  let touched ← withAncestors id
  let _ ← ask (.deletePathsOf id)
  prune
  return touched

/-- Remove an archived node. The answer lists the node and what was above it; without an archived
node there is none. -/
def purge (id : NodeId k) : Work k (Option (List (NodeId k))) := do
  if (← ask (.findArchivedNode id)).isNone then return none
  let _ ← ask (.deleteArchivedNode id)
  return some (← detach id)

/-- Remove an active node. The answer lists the node and what was above it. -/
def delete (id : NodeId k) : Work k (List (NodeId k)) := do
  unless ← ask (.deleteNode id) do refuse (.notFound (.node id))
  let _ ← ask (.deleteArchivedNode id)
  detach id

/-! ## Lookups -/

/-- The view of a node. -/
def view (node : Node k) : Work k (NodeView k) := do
  return ⟨node, !(← ask (.ancestorsWithDescendants [node.id])).isEmpty⟩

/-- The view of the active node with an id. -/
def viewById (id : NodeId k) : Work k (NodeView k) := do
  let some node ← ask (.findNode id) | refuse (.notFound (.node id))
  view node

/-- The view of the active node with a code. -/
def viewByCode (code : String) : Work k (NodeView k) := do
  let some node ← ask (.findNodeByCode code) | refuse (.notFound (.code code))
  view node

/-- The id of the active node with a code. -/
def idOfCode (code : String) : Work k (NodeId k) := do
  let some node ← ask (.findNodeByCode code) | refuse (.notFound (.code code))
  return node.id

/-- The views of nodes. -/
def views (nodes : List (Node k)) : Work k (List (NodeView k)) := do
  let parents ← ask (.ancestorsWithDescendants (nodes.map (·.id)))
  return nodes.map fun n => ⟨n, parents.contains n.id⟩

/-- A page of the nodes that a filter accepts. -/
def page (lifecycle : Lifecycle) (filter : NodeFilter) (p : Pagination) :
    Work k (Page (NodeView k)) := do
  let nodes ← ask (.listNodes lifecycle filter p)
  let total ← ask (.countNodes lifecycle filter)
  return Page.of (← views nodes) (UInt64.ofNat total) p

/-- A slice of the nodes that a filter accepts. -/
def slice (lifecycle : Lifecycle) (filter : NodeFilter) (p : Pagination) :
    Work k (Slice (NodeView k)) := do
  let nodes ← ask (.listNodes lifecycle filter p.lookAhead)
  return Slice.ofLookAhead (← views nodes) p

/-- A window of the roots, and the number of all roots. -/
def roots (p : Pagination) : Work k (List (NodeId k) × Nat) := do
  let ids ← ask (.rootIds p)
  return (ids, ← ask .countRoots)

/-- A window of the nodes one edge below an active node, and the number of all of them. -/
def children (ancestor : NodeId k) (p : Pagination) : Work k (List (NodeId k) × Nat) := do
  requireNode ancestor
  let ids ← ask (.directDescendantIds ancestor p)
  return (ids, ← ask (.countDirectDescendants ancestor))

/-- The active nodes at least one edge below any of some nodes. -/
def descendants (ids : List (NodeId k)) : Work k (List (NodeId k)) := do
  let reachable ← ask (.descendantIds ids)
  return (← ask (.findNodes reachable)).map (·.id)

end Work

end Lineage

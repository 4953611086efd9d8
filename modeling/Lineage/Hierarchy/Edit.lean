import Lineage.Hierarchy

/-!
# Changing a hierarchy

Nodes and edges are added, overwritten and removed, each in one transaction. A node in use is not
removed.
-/

namespace Lineage

/-- What became of a purge. -/
inductive PurgeOutcome
  | purged
  /-- The node has consumers again and stays archived. -/
  | inUse (codes : List String)
  /-- The node is not, or no longer, in the archive. -/
  | notArchived
  deriving DecidableEq, Repr

namespace Hierarchy

variable {k : Kind}

/-- The first id that the source gives, and the hierarchy after it was drawn. -/
def drawId (h : Hierarchy k) (millis : Int) : NodeId k × Hierarchy k :=
  let (raw, ids) := h.ids.draw millis
  (⟨raw⟩, { h with ids })

/-- Register a node. Without an id it gets one from the source, which is used up even if the node
is then refused. -/
def add (h : Hierarchy k) (millis : Int) (new : NewNode k) :
    Except (HierarchyError k) (Node k) × Hierarchy k :=
  match new.flaw? with
  | some flaw => (.error (.validation flaw.text), h)
  | none =>
    let (id, h) := match new.id with
      | some id => (id, h)
      | none => h.drawId millis
    let node := new.toNode id
    h.change (do Work.add node; return (node, some [id])) .ofNodeWrite

/-- Overwrite an active node. -/
def update (h : Hierarchy k) (node : Node k) : Except (HierarchyError k) (Node k) × Hierarchy k :=
  match node.flaw? with
  | some flaw => (.error (.validation flaw.text), h)
  | none => h.change (do Work.update node; return (node, some [node.id])) .ofNodeWrite

/-- Add the edge from `ancestor` to `descendant`. -/
def link (h : Hierarchy k) (ancestor descendant : NodeId k) :
    Except (HierarchyError k) Unit × Hierarchy k :=
  h.change do Work.link ancestor descendant; return ((), some [ancestor, descendant])

/-- Remove the edge from `ancestor` to `descendant`. -/
def unlink (h : Hierarchy k) (ancestor descendant : NodeId k) :
    Except (HierarchyError k) Unit × Hierarchy k :=
  h.change do
    Work.unlink h.settings.leafOnlyDetach ancestor descendant
    return ((), some [ancestor, descendant])

/-- Move a node back from the archive, with the edges it had. -/
def recover (h : Hierarchy k) (id : NodeId k) : Except (HierarchyError k) Unit × Hierarchy k :=
  h.change do Work.recover id; return ((), some [id])

/-- Remove an archived node that nobody uses. -/
def purge (h : Hierarchy k) (id : NodeId k) :
    Except (HierarchyError k) PurgeOutcome × Hierarchy k :=
  match h.consumers id with
  | .error e => (.error e, h)
  | .ok (code :: codes) => (.ok (.inUse (code :: codes)), h)
  | .ok [] => h.change do
    match ← Work.purge id with
    | some touched => return (.purged, some touched)
    | none => return (.notArchived, none)

/-- Remove an active node that nobody uses. -/
def delete (h : Hierarchy k) (id : NodeId k) : Except (HierarchyError k) Unit × Hierarchy k :=
  match h.requireUnused id with
  | .error e => (.error e, h)
  | .ok () => h.change do return ((), some (← Work.delete id))

/-- Remove the active node with a code, if nobody uses it. A blank code asks for nothing. -/
def deleteByCode (h : Hierarchy k) (code : String) :
    Except (HierarchyError k) Unit × Hierarchy k :=
  if Text.isBlankText code then (.ok (), h)
  else
    match h.look (Work.idOfCode code) with
    | .error e => (.error e, h)
    | .ok id => h.delete id

end Hierarchy

end Lineage

import Lineage.Node
import Lineage.Path
import Lineage.Page

/-!
# The interface of a store

A transaction on a store answers `Call`s: reads and writes of node records, active and archived,
and of closure rows. A call is a value that carries the type of its answer, so that one list of
calls can be put to any kind of store.
-/

namespace Lineage

/-- The two tables of node records. -/
inductive Lifecycle
  | active
  | archived
  deriving DecidableEq, Repr

/-- A call within a transaction on the store of kind `k`, with the type of its answer. -/
inductive Call (k : Kind) : Type → Type
  /-- Write a record to the active table. -/
  | insertNode (node : Node k) : Call k Unit
  /-- Overwrite an active record; false if there is none. -/
  | updateNode (node : Node k) : Call k Bool
  | findNode (id : NodeId k) : Call k (Option (Node k))
  | findNodeByCode (code : String) : Call k (Option (Node k))
  /-- The active records of some ids, by ascending id. -/
  | findNodes (ids : List (NodeId k)) : Call k (List (Node k))
  | findArchivedNode (id : NodeId k) : Call k (Option (Node k))
  /-- Whether an active or archived record has the id. -/
  | idExists (id : NodeId k) : Call k Bool
  /-- The active or archived record that has the code. -/
  | codeOwner (code : String) : Call k (Option (NodeId k))
  /-- A window of the records that a filter accepts, by ascending id. -/
  | listNodes (lifecycle : Lifecycle) (filter : NodeFilter) (page : Pagination) :
      Call k (List (Node k))
  | countNodes (lifecycle : Lifecycle) (filter : NodeFilter) : Call k Nat
  /-- Remove an active record and leave its rows. -/
  | deleteNode (id : NodeId k) : Call k Bool
  /-- Move an active record to the archive. -/
  | archiveNode (id : NodeId k) : Call k Bool
  /-- Move an archived record back. -/
  | restoreNode (id : NodeId k) : Call k Bool
  | deleteArchivedNode (id : NodeId k) : Call k Bool
  | insertPaths (rows : List (Path k)) : Call k Unit
  /-- Set the depth of pairs that have a row. -/
  | updateDepths (rows : List (Path k)) : Call k Unit
  /-- Delete rows by pair, whatever their depth; the answer counts them. -/
  | deletePaths (rows : List (Path k)) : Call k Nat
  /-- Delete every row that starts or ends at a node; the answer counts them. -/
  | deletePathsOf (id : NodeId k) : Call k Nat
  | findPath (ancestor descendant : NodeId k) : Call k (Option (Path k))
  /-- The rows that end at a node, its own included. -/
  | ancestorsOf (id : NodeId k) : Call k (List (Path k))
  /-- The rows that start at a node, its own included. -/
  | descendantsOf (id : NodeId k) : Call k (List (Path k))
  | pathsBetween (ancestors descendants : List (NodeId k)) : Call k (List (Path k))
  | allPaths : Call k (List (Path k))
  /-- A window of the active nodes that are nobody's descendant, by ascending id. -/
  | rootIds (page : Pagination) : Call k (List (NodeId k))
  | countRoots : Call k Nat
  /-- A window of the active nodes one edge below a node, by ascending id. -/
  | directDescendantIds (ancestor : NodeId k) (page : Pagination) : Call k (List (NodeId k))
  | countDirectDescendants (ancestor : NodeId k) : Call k Nat
  /-- The nodes at least one edge below any of some ids, ascending. -/
  | descendantIds (ids : List (NodeId k)) : Call k (List (NodeId k))
  /-- Those of some ids that have a node one edge below them, ascending. -/
  | ancestorsWithDescendants (ids : List (NodeId k)) : Call k (List (NodeId k))

/-- The name of a call. -/
def Call.name {k : Kind} {α : Type} : Call k α → String
  | insertNode _ => "insert_node"
  | updateNode _ => "update_node"
  | findNode _ => "find_node"
  | findNodeByCode _ => "find_node_by_code"
  | findNodes _ => "find_nodes"
  | findArchivedNode _ => "find_archived_node"
  | idExists _ => "id_exists"
  | codeOwner _ => "code_owner"
  | listNodes .. => "list_nodes"
  | countNodes .. => "count_nodes"
  | deleteNode _ => "delete_node"
  | archiveNode _ => "archive_node"
  | restoreNode _ => "restore_node"
  | deleteArchivedNode _ => "delete_archived_node"
  | insertPaths _ => "insert_paths"
  | updateDepths _ => "update_depths"
  | deletePaths _ => "delete_paths"
  | deletePathsOf _ => "delete_paths_of"
  | findPath .. => "find_path"
  | ancestorsOf _ => "ancestors_of"
  | descendantsOf _ => "descendants_of"
  | pathsBetween .. => "paths_between"
  | allPaths => "all_paths"
  | rootIds _ => "root_ids"
  | countRoots => "count_roots"
  | directDescendantIds .. => "direct_descendant_ids"
  | countDirectDescendants _ => "count_direct_descendants"
  | descendantIds _ => "descendant_ids"
  | ancestorsWithDescendants _ => "ancestors_with_descendants"

end Lineage

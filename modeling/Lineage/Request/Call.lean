import Lineage.Request
import Lineage.Store.Call

/-!
# Calls as requests

A request for a call names it under `do` and holds its arguments. Every call is asked for by its
`Call.name`.
-/

namespace Lineage.Request

variable {k : Kind}

/-- The table of records that a request is about, the active one unless it names the other. -/
def lifecycle (r : Request) : Lifecycle :=
  if r.text "lifecycle" = "archived" then .archived else .active

/-- A search whose pieces are fields of the request itself. -/
def search (r : Request) : Except Fault NodeFilter :=
  return { code := ← r.get? "code", name := ← r.get? "name" }

/-- Read a call and hand it on. -/
def call {β : Type} (r : Request) (use : {α : Type} → [Report α] → Call k α → β) :
    Except Fault β := do
  match r.text "do" with
  | "insert_node" => return use (.insertNode (← r.get "node"))
  | "update_node" => return use (.updateNode (← r.get "node"))
  | "find_node" => return use (.findNode (← r.get "id"))
  | "find_node_by_code" => return use (.findNodeByCode (← r.get "code"))
  | "find_nodes" => return use (.findNodes (← r.get "ids"))
  | "find_archived_node" => return use (.findArchivedNode (← r.get "id"))
  | "id_exists" => return use (.idExists (← r.get "id"))
  | "code_owner" => return use (.codeOwner (← r.get "code"))
  | "list_nodes" => return use (.listNodes r.lifecycle (← r.search) (← r.page))
  | "count_nodes" => return use (.countNodes r.lifecycle (← r.search))
  | "delete_node" => return use (.deleteNode (← r.get "id"))
  | "archive_node" => return use (.archiveNode (← r.get "id"))
  | "restore_node" => return use (.restoreNode (← r.get "id"))
  | "delete_archived_node" => return use (.deleteArchivedNode (← r.get "id"))
  | "insert_paths" => return use (.insertPaths (← r.get "paths"))
  | "update_depths" => return use (.updateDepths (← r.get "paths"))
  | "delete_paths" => return use (.deletePaths (← r.get "paths"))
  | "delete_paths_of" => return use (.deletePathsOf (← r.get "id"))
  | "find_path" => return use (.findPath (← r.get "ancestor") (← r.get "descendant"))
  | "ancestors_of" => return use (.ancestorsOf (← r.get "id"))
  | "descendants_of" => return use (.descendantsOf (← r.get "id"))
  | "paths_between" => return use (.pathsBetween (← r.get "ancestors") (← r.get "descendants"))
  | "all_paths" => return use .allPaths
  | "root_ids" => return use (.rootIds (← r.page))
  | "count_roots" => return use .countRoots
  | "direct_descendant_ids" => return use (.directDescendantIds (← r.get "ancestor") (← r.page))
  | "count_direct_descendants" => return use (.countDirectDescendants (← r.get "ancestor"))
  | "descendant_ids" => return use (.descendantIds (← r.get "ids"))
  | "ancestors_with_descendants" => return use (.ancestorsWithDescendants (← r.get "ids"))
  | name => throw (.unknown "step" name)

end Lineage.Request

import Lineage.Error
import Lineage.Json.Reader
import Lineage.Sql.Statement

/-!
# Replies

What a database answers to a statement, and what that means for the call behind it.

* `Sql.Error`: why there is no answer; `Sql.Error.toStoreError` is the failure of the store.
* `Sql.answer`: the answer to a call from the rows of a reply.
-/

namespace Lineage.Sql

/-- The value in a column: none is a null. -/
abbrev Cell := Option Json

/-- What comes back for a statement that was carried out. -/
structure Result where
  rows : List (List Cell) := []
  /-- The number of rows the statement is about. -/
  affected : Nat := 0
  deriving Inhabited

/-- What a server does with a statement. -/
inductive Reply
  | done (result : Result)
  | error (code message : String)
  /-- The connection is dropped. -/
  | hangup
  deriving Inhabited

/-- Why there is no answer to a call. -/
inductive Error
  /-- The server refused a statement. -/
  | server (operation code message : String)
  /-- The connection is lost. -/
  | disconnected (operation : String)
  /-- A value that must be there is null. -/
  | nullValue (operation : String)
  /-- A row that must be there is missing. -/
  | noRow (operation : String)
  /-- A record or a closure row cannot be read. -/
  | badRow (what : String)
  /-- Extensions are no object. -/
  | badExtensions (value : Json)
  | negativeDepth (depth : Int)
  /-- No statement can be sent from here. -/
  | noConnection (detail : String)
  deriving Repr

/-- The codes of broken uniqueness, reference and value rules. -/
def ruleCodes : List String := ["23505", "23503", "23514"]

/-- The failure of the store. -/
def Error.toStoreError : Error → StoreError
  | server operation code message =>
    let detail := "database error in " ++ operation ++ ": " ++ message
    if ruleCodes.contains code then .constraint detail else .backend detail
  | disconnected operation => .unavailable ("connection lost in " ++ operation)
  | nullValue operation => .serialization ("unexpected null in " ++ operation)
  | noRow operation =>
    .backend ("sqlx error in " ++ operation ++
      ": no rows returned by a query that expected to return at least one row")
  | badRow what => .serialization ("failed to decode " ++ what ++ " row")
  | badExtensions value => .serialization ("extensions must be a JSON object, got " ++ value.text)
  | negativeDepth depth => .serialization ("negative path depth " ++ depth.repr)
  | noConnection detail => .unavailable detail

/-! ## Rows -/

variable {k : Kind}

/-- A 64-bit integer in a column. -/
def idCell? (c : Option Cell) : Option (NodeId k) := c.join >>= Json.int? >>= NodeId.ofInt?

/-- A text in a column. -/
def textCell? (c : Option Cell) : Option String :=
  match c.join with
  | some (.string s) => some s
  | _ => none

/-- A column that must be readable. -/
def demand {α : Type} (what : String) (value : Option α) : Except Error α :=
  match value with
  | some a => .ok a
  | none => .error (.badRow what)

/-- The extensions in a column, which travel as text; a JSON null stands for none. -/
def extensionsOf (c : Option Cell) : Except Error Extensions :=
  match c.join >>= Json.reread? with
  | some (.object members) => .ok (Table.ofList members)
  | some .null => .ok ∅
  | some value => .error (.badExtensions value)
  | none => .error (.badRow "node")

/-- The record in a row. Its extensions are read first. -/
def nodeOf (row : List Cell) : Except Error (Node k) := do
  let extensions ← extensionsOf row[4]?
  let id ← demand "node" (idCell? row[0]?)
  let code ← demand "node" (textCell? row[1]?)
  let name ← demand "node" (textCell? row[2]?)
  let description ← demand "node" (textCell? row[3]?)
  return { id, code, name, description, extensions }

/-- The closure row in a row. -/
def pathOf (row : List Cell) : Except Error (Path k) := do
  let depth ← demand "path" (row[2]?.join >>= Json.int?)
  let ancestor ← demand "path" (idCell? row[0]?)
  let descendant ← demand "path" (idCell? row[1]?)
  if depth < 0 then throw (.negativeDepth depth)
  return { ancestor, descendant, depth := UInt32.ofNat depth.toNat }

/-- The integer in a row of one column. -/
def scalarOf (operation : String) (row : List Cell) : Except Error Int :=
  match row.head?.join >>= Json.int? with
  | some n => .ok n
  | none => .error (.nullValue operation)

/-- The id in a row of one column. -/
def idOf (operation : String) (row : List Cell) : Except Error (NodeId k) :=
  (scalarOf operation row).map fun n => ⟨Int64.ofInt n⟩

/-- The count in the first row, which must be there; below zero counts as zero. -/
def countOf (operation : String) (r : Result) : Except Error Nat :=
  match r.rows with
  | row :: _ => (scalarOf operation row).map Int.toNat
  | [] => .error (.noRow operation)

/-- The first row, read by `read`, if there is a row. -/
def firstOf {α : Type} (read : List Cell → Except Error α) (r : Result) :
    Except Error (Option α) :=
  match r.rows with
  | row :: _ => (read row).map some
  | [] => .ok none

/-- All records; the answer is the last one. -/
def lastNode (r : Result) : Except Error (Option (Node k)) :=
  (r.rows.mapM nodeOf).map List.getLast?

/-! ## Calls -/

/-- What a call is named in errors. -/
def operation {α : Type} : Call k α → String
  | .findNode _ | .findNodes _ | .findArchivedNode _ => "fetch_nodes"
  | .idExists _ | .countDirectDescendants _ => "count"
  | .archiveNode _ | .restoreNode _ => "move_node"
  | .ancestorsOf _ | .descendantsOf _ => "fetch_paths"
  | .descendantIds _ | .ancestorsWithDescendants _ => "fetch_ids"
  | c => c.name

/-- The answer to a call whose statement was carried out. -/
def answer {α : Type} (c : Call k α) (r : Result) : Except Error α :=
  match c with
  | .insertNode _ => .ok ()
  | .updateNode _ => .ok (0 < r.affected)
  | .findNode _ => lastNode r
  | .findNodeByCode _ => firstOf nodeOf r
  | .findNodes _ => r.rows.mapM nodeOf
  | .findArchivedNode _ => lastNode r
  | .idExists id => (countOf (operation (Call.idExists id)) r).map fun n => 0 < n
  | .codeOwner code => firstOf (idOf (operation (Call.codeOwner (k := k) code))) r
  | .listNodes .. => r.rows.mapM nodeOf
  | .countNodes l f => countOf (operation (Call.countNodes (k := k) l f)) r
  | .deleteNode _ => .ok (0 < r.affected)
  | .archiveNode _ => .ok (0 < r.affected)
  | .restoreNode _ => .ok (0 < r.affected)
  | .deleteArchivedNode _ => .ok (0 < r.affected)
  | .insertPaths _ => .ok ()
  | .updateDepths _ => .ok ()
  | .deletePaths _ => .ok r.affected
  | .deletePathsOf _ => .ok r.affected
  | .findPath .. => firstOf pathOf r
  | .ancestorsOf _ => r.rows.mapM pathOf
  | .descendantsOf _ => r.rows.mapM pathOf
  | .pathsBetween .. => r.rows.mapM pathOf
  | .allPaths => r.rows.mapM pathOf
  | .rootIds p => r.rows.mapM (idOf (operation (Call.rootIds (k := k) p)))
  | .countRoots => countOf (operation (Call.countRoots (k := k))) r
  | .directDescendantIds a p => r.rows.mapM (idOf (operation (Call.directDescendantIds a p)))
  | .countDirectDescendants a => countOf (operation (Call.countDirectDescendants a)) r
  | .descendantIds ids => r.rows.mapM (idOf (operation (Call.descendantIds ids)))
  | .ancestorsWithDescendants ids =>
    r.rows.mapM (idOf (operation (Call.ancestorsWithDescendants ids)))

end Lineage.Sql

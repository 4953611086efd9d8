import Lineage.Sql.Pattern
import Lineage.Sql.Tables

/-!
# Statements

What is sent to a database for each call of the store's interface: a text with numbered places, and
the values for these places. A batch without rows asks for nothing, so no statement is sent.
-/

namespace Lineage.Sql

/-- The value for a place of a statement. -/
inductive Param
  | null
  | int (n : Int)
  | text (s : String)
  | ints (ns : List Int)
  | json (j : Json)
  deriving Repr, Inhabited

/-- A text with numbered places, and their values in order. -/
structure Statement where
  text : String
  params : List Param := []
  deriving Repr, Inhabited

variable {k : Kind}

/-! ## Parts -/

/-- The columns of a record that are read. -/
def recordFields : String := "id, code, name, description, extensions"

/-- The columns of a closure row. -/
def pathFields : String := "ancestor_id, descendant_id, depth"

/-- Read records. -/
def selectRecords (table : String) : String := "SELECT " ++ recordFields ++ " FROM " ++ table

/-- Read closure rows. -/
def selectPaths (t : Tables) : String := "SELECT " ++ pathFields ++ " FROM " ++ t.paths

/-- The records that contain the pieces of a search. -/
def filterClause : String :=
  "($1::TEXT IS NULL OR code ILIKE $1) AND ($2::TEXT IS NULL OR name ILIKE $2)"

/-- The value for a piece of a search. -/
def piece : Option String → Param
  | some s => .text (Pattern.containing s)
  | none => .null

/-- Ids as a value. -/
def idList (ids : List (NodeId k)) : Param := .ints (ids.map NodeId.toInt)

/-- A depth as a signed 32-bit number. -/
def signedDepth (d : UInt32) : Int := d.toInt32.toInt

/-- Rows as three columns of values. -/
def columns (rows : List (Path k)) : List Param :=
  [.ints (rows.map fun p => p.ancestor.toInt), .ints (rows.map fun p => p.descendant.toInt),
    .ints (rows.map fun p => signedDepth p.depth)]

/-- Three columns of values as rows. -/
def unnest : String := "UNNEST($1::BIGINT[], $2::BIGINT[], $3::INTEGER[])"

/-- Join stored rows with given ones. -/
def joinGiven : String :=
  unnest ++ " AS u(ancestor_id, descendant_id, depth) " ++
    "WHERE p.ancestor_id = u.ancestor_id AND p.descendant_id = u.descendant_id"

/-- The values of a record's columns. -/
def recordValues (n : Node k) : List Param :=
  [.int n.id.toInt, .text n.code, .text n.name, .text n.description,
    .json (.object n.extensions.entries)]

/-- Move a record from one table to another. -/
def moveRecord (source target : String) (id : NodeId k) : Statement :=
  ⟨"WITH moved AS (DELETE FROM " ++ source ++ " WHERE id = $1 RETURNING " ++ recordFields ++
    ") INSERT INTO " ++ target ++ " (" ++ recordFields ++ ") SELECT " ++ recordFields ++
    " FROM moved", [.int id.toInt]⟩

/-- The active nodes with a row of their own that are at no positive depth below a node. -/
def rootClause (t : Tables) : String :=
  t.nodes ++ " n JOIN " ++ t.paths ++
    " s ON s.ancestor_id = n.id AND s.descendant_id = n.id AND s.depth = 0 " ++
    "WHERE NOT EXISTS ( SELECT 1 FROM " ++ t.paths ++
    " p WHERE p.descendant_id = n.id AND p.depth >= 1)"

/-- The active nodes one edge below a node. -/
def childClause (t : Tables) : String :=
  t.paths ++ " p JOIN " ++ t.nodes ++
    " n ON n.id = p.descendant_id WHERE p.ancestor_id = $1 AND p.depth = 1"

/-- The size and the start of a window as values. -/
def window (p : Pagination) : List Param := [.int p.limit.toNat, .int p.offset.toNat]

/-- A statement with rows, unless there are none. -/
def batch (text : String) (rows : List (Path k)) : Option Statement :=
  if rows.isEmpty then none else some ⟨text, columns rows⟩

/-! ## Calls -/

/-- The statement of a call. -/
def statement? {α : Type} (t : Tables) : Call k α → Option Statement
  | .insertNode n =>
    some ⟨"INSERT INTO " ++ t.nodes ++ " (" ++ recordFields ++ ") VALUES ($1, $2, $3, $4, $5)",
      recordValues n⟩
  | .updateNode n =>
    some ⟨"UPDATE " ++ t.nodes ++ " SET code = $2, name = $3, description = $4, " ++
      "extensions = $5, updated_at = NOW() WHERE id = $1", recordValues n⟩
  | .findNode id =>
    some ⟨selectRecords t.nodes ++ " WHERE id = ANY($1) ORDER BY id", [idList [id]]⟩
  | .findNodeByCode code => some ⟨selectRecords t.nodes ++ " WHERE code = $1", [.text code]⟩
  | .findNodes ids =>
    some ⟨selectRecords t.nodes ++ " WHERE id = ANY($1) ORDER BY id", [idList ids]⟩
  | .findArchivedNode id =>
    some ⟨selectRecords t.archived ++ " WHERE id = ANY($1)", [idList [id]]⟩
  | .idExists id =>
    some ⟨"SELECT COUNT(*) FROM (SELECT id FROM " ++ t.nodes ++
      " WHERE id = $1 UNION ALL SELECT id FROM " ++ t.archived ++ " WHERE id = $1) AS taken",
      [.int id.toInt]⟩
  | .codeOwner code =>
    some ⟨"SELECT id FROM " ++ t.nodes ++ " WHERE code = $1 UNION ALL SELECT id FROM " ++
      t.archived ++ " WHERE code = $1 LIMIT 1", [.text code]⟩
  | .listNodes lifecycle filter p =>
    some ⟨selectRecords (t.records lifecycle) ++ " WHERE " ++ filterClause ++
      " ORDER BY id LIMIT $3 OFFSET $4", [piece filter.code, piece filter.name] ++ window p⟩
  | .countNodes lifecycle filter =>
    some ⟨"SELECT COUNT(*) FROM " ++ t.records lifecycle ++ " WHERE " ++ filterClause,
      [piece filter.code, piece filter.name]⟩
  | .deleteNode id => some ⟨"DELETE FROM " ++ t.nodes ++ " WHERE id = $1", [.int id.toInt]⟩
  | .archiveNode id => some (moveRecord t.nodes t.archived id)
  | .restoreNode id => some (moveRecord t.archived t.nodes id)
  | .deleteArchivedNode id =>
    some ⟨"DELETE FROM " ++ t.archived ++ " WHERE id = $1", [.int id.toInt]⟩
  | .insertPaths rows =>
    batch ("INSERT INTO " ++ t.paths ++ " (" ++ pathFields ++ ") SELECT * FROM " ++ unnest) rows
  | .updateDepths rows =>
    batch ("UPDATE " ++ t.paths ++ " AS p SET depth = u.depth FROM " ++ joinGiven) rows
  | .deletePaths rows => batch ("DELETE FROM " ++ t.paths ++ " AS p USING " ++ joinGiven) rows
  | .deletePathsOf id =>
    some ⟨"DELETE FROM " ++ t.paths ++ " WHERE ancestor_id = $1 OR descendant_id = $1",
      [.int id.toInt]⟩
  | .findPath a d =>
    some ⟨selectPaths t ++ " WHERE ancestor_id = $1 AND descendant_id = $2",
      [.int a.toInt, .int d.toInt]⟩
  | .ancestorsOf id => some ⟨selectPaths t ++ " WHERE descendant_id = ANY($1)", [idList [id]]⟩
  | .descendantsOf id => some ⟨selectPaths t ++ " WHERE ancestor_id = ANY($1)", [idList [id]]⟩
  | .pathsBetween ancestors descendants =>
    some ⟨selectPaths t ++ " WHERE ancestor_id = ANY($1) AND descendant_id = ANY($2)",
      [idList ancestors, idList descendants]⟩
  | .allPaths => some ⟨selectPaths t, []⟩
  | .rootIds p =>
    some ⟨"SELECT n.id FROM " ++ rootClause t ++ " ORDER BY n.id LIMIT $1 OFFSET $2", window p⟩
  | .countRoots => some ⟨"SELECT COUNT(*) FROM " ++ rootClause t, []⟩
  | .directDescendantIds ancestor p =>
    some ⟨"SELECT p.descendant_id FROM " ++ childClause t ++
      " ORDER BY p.descendant_id LIMIT $2 OFFSET $3", .int ancestor.toInt :: window p⟩
  | .countDirectDescendants ancestor =>
    some ⟨"SELECT COUNT(*) FROM " ++ childClause t, [.int ancestor.toInt]⟩
  | .descendantIds ids =>
    some ⟨"SELECT DISTINCT descendant_id FROM " ++ t.paths ++
      " WHERE ancestor_id = ANY($1) AND depth >= 1 ORDER BY descendant_id", [idList ids]⟩
  | .ancestorsWithDescendants ids =>
    some ⟨"SELECT DISTINCT ancestor_id FROM " ++ t.paths ++
      " WHERE ancestor_id = ANY($1) AND depth = 1 ORDER BY ancestor_id", [idList ids]⟩

end Lineage.Sql

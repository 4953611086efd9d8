import Lineage.Store.Call

/-!
# The tables of a hierarchy

Every hierarchy has three tables of its own, named after its kind: active records, archived records
and closure rows. `Tables.schema` are the statements that create them.
-/

namespace Lineage

/-- The names of a hierarchy's tables. -/
structure Tables where
  nodes : String
  archived : String
  paths : String
  deriving DecidableEq, Repr, Inhabited

namespace Tables

/-- The tables of the hierarchy of a kind. -/
def ofKind (k : Kind) : Tables := ⟨k.name ++ "s", k.name ++ "s_archived", k.name ++ "_paths"⟩

/-- The table of the records of one lifecycle. -/
def records (t : Tables) : Lifecycle → String
  | .active => t.nodes
  | .archived => t.archived

/-- How every column of a table definition begins. -/
def newColumn : String := "\n                "

/-- The definition of a table with some columns and constraints. -/
def create (table : String) (columns : List String) : String :=
  "CREATE TABLE IF NOT EXISTS " ++ table ++ " (" ++ newColumn ++
    ("," ++ newColumn).intercalate columns ++ ")"

/-- The columns of a record. -/
def recordColumns : List String :=
  ["id BIGINT PRIMARY KEY",
    "code VARCHAR(100) NOT NULL UNIQUE",
    "name VARCHAR(200) NOT NULL",
    "description VARCHAR(500) NOT NULL DEFAULT ''",
    "extensions JSONB NOT NULL DEFAULT '\x7b\x7d'::jsonb",
    "updated_at TIMESTAMPTZ NOT NULL DEFAULT NOW()"]

/-- The columns an archived record has besides. -/
def archiveColumns : List String :=
  ["archived BOOLEAN NOT NULL DEFAULT TRUE", "archived_at TIMESTAMPTZ NOT NULL DEFAULT NOW()"]

/-- The columns of a closure row. -/
def pathColumns : List String :=
  ["ancestor_id BIGINT NOT NULL",
    "descendant_id BIGINT NOT NULL",
    "depth INTEGER NOT NULL CHECK (depth >= 0)",
    "PRIMARY KEY (ancestor_id, descendant_id)"]

/-- The three tables with their columns. -/
def definitions (t : Tables) : List (String × List String) :=
  [(t.nodes, recordColumns), (t.archived, recordColumns ++ archiveColumns), (t.paths, pathColumns)]

/-- The statements that create the tables where they are missing. -/
def schema (t : Tables) : List String :=
  t.definitions.map (fun d => create d.1 d.2) ++
    ["CREATE INDEX IF NOT EXISTS " ++ t.paths ++ "_descendant_idx ON " ++ t.paths ++
      " (descendant_id, depth)"]

end Tables

end Lineage

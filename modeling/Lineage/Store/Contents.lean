import Lineage.Closure
import Lineage.Error
import Lineage.Store.Call

/-!
# What a store holds

`Contents k` is the state of a store in memory: active records, archived records, and closure
rows. `Contents.perform` answers a `Call` and gives the contents after it.

Ids and codes are checked when a record is inserted, over both tables. A batch of rows is inserted
row by row up to the first pair that has a row already.
-/

namespace Lineage

/-- The records and closure rows of one hierarchy. -/
structure Contents (k : Kind) where
  active : Table (NodeId k) (Node k) := ∅
  archived : Table (NodeId k) (Node k) := ∅
  paths : DepthMap k := ∅
  deriving Inhabited

namespace Contents

variable {k : Kind}

/-- The records of one lifecycle. -/
def table (s : Contents k) : Lifecycle → Table (NodeId k) (Node k)
  | .active => s.active
  | .archived => s.archived

/-- The closure rows, by ancestor, then descendant. -/
def rows (s : Contents k) : List (Path k) := s.paths.rows

/-- Whether a record, active or archived, has the id. -/
def hasId (s : Contents k) (id : NodeId k) : Bool := s.active.contains id || s.archived.contains id

/-- The first record with the code, active ones before archived ones. -/
def ownerOf (s : Contents k) (code : String) : Option (NodeId k) :=
  ((s.active.values ++ s.archived.values).find? fun n => n.code == code).map (·.id)

/-- The records of a lifecycle that a filter accepts, by ascending id. -/
def accepted (s : Contents k) (lifecycle : Lifecycle) (filter : NodeFilter) : List (Node k) :=
  (s.table lifecycle).values.filter fun n => filter.accepts n

/-- The active nodes with a row of their own that are at no positive depth below a node. -/
def roots (s : Contents k) : List (NodeId k) :=
  let below := KeySet.ofList ((s.rows.filter fun p => 1 ≤ p.depth).map (·.descendant))
  s.active.keys.filter fun id => s.paths.contains (id, id) && !below.contains id

/-- The active nodes one edge below `ancestor`. -/
def children (s : Contents k) (ancestor : NodeId k) : List (NodeId k) :=
  ((s.rows.filter fun p => p.ancestor == ancestor && p.isDirect).map (·.descendant)).filter
    fun id => s.active.contains id

/-! ## Writes -/

/-- Add a record to the active table. -/
def insertNode (s : Contents k) (node : Node k) : Except StoreError Unit × Contents k :=
  if s.hasId node.id then
    (.error (.constraint (k.name ++ " id " ++ node.id.text ++ " already exists")), s)
  else if (s.ownerOf node.code).isSome then
    (.error (.constraint (k.name ++ " code '" ++ node.code ++ "' already exists")), s)
  else (.ok (), { s with active := s.active.insert node.id node })

/-- Overwrite an active record. -/
def updateNode (s : Contents k) (node : Node k) : Bool × Contents k :=
  if s.active.contains node.id then
    (true, { s with active := s.active.insert node.id node })
  else (false, s)

/-- Move an active record to the archive. -/
def archiveNode (s : Contents k) (id : NodeId k) : Bool × Contents k :=
  match s.active.get? id with
  | some node =>
    (true, { s with active := s.active.erase id, archived := s.archived.insert id node })
  | none => (false, s)

/-- Move an archived record back to the active table. -/
def restoreNode (s : Contents k) (id : NodeId k) : Bool × Contents k :=
  match s.archived.get? id with
  | some node =>
    (true, { s with active := s.active.insert id node, archived := s.archived.erase id })
  | none => (false, s)

/-- Add rows one after the other, up to the first whose pair has a row; that one is the answer. -/
def insertRows : List (Path k) → DepthMap k → Option (Path k) × DepthMap k
  | [], m => (none, m)
  | p :: rest, m =>
    if m.contains p.pair then (some p, m) else insertRows rest (m.insert p.pair p.depth)

/-- Add rows; a pair that has a row already ends the batch with an error. -/
def insertPaths (s : Contents k) (rows : List (Path k)) : Except StoreError Unit × Contents k :=
  match insertRows rows s.paths with
  | (none, m) => (.ok (), { s with paths := m })
  | (some p, m) =>
    (.error (.constraint (k.name ++ " path " ++ p.ancestor.text ++ " -> " ++ p.descendant.text ++
      " already exists")), { s with paths := m })

/-- Set the depths of the pairs that have a row. -/
def updateDepths (s : Contents k) (rows : List (Path k)) : Contents k :=
  { s with paths := rows.foldl (fun m p => m.modify p.pair fun _ => p.depth) s.paths }

/-- Delete rows by pair. -/
def deletePaths (s : Contents k) (rows : List (Path k)) : Nat × Contents k :=
  let m := rows.foldl (fun m p => m.erase p.pair) s.paths
  (s.paths.size - m.size, { s with paths := m })

/-- Delete the rows that start or end at `id`. -/
def deletePathsOf (s : Contents k) (id : NodeId k) : Nat × Contents k :=
  let m := s.paths.filter fun pair _ => !(pair.1 == id) && !(pair.2 == id)
  (s.paths.size - m.size, { s with paths := m })

/-! ## Calls -/

/-- The answer to a call, and the contents after it. -/
def perform {α : Type} (s : Contents k) : Call k α → Except StoreError α × Contents k
  | .insertNode node => s.insertNode node
  | .updateNode node => let (found, s) := s.updateNode node; (.ok found, s)
  | .findNode id => (.ok (s.active.get? id), s)
  | .findNodeByCode code => (.ok (s.active.values.find? fun n => n.code == code), s)
  | .findNodes ids => (.ok ((KeySet.ofList ids).keys.filterMap s.active.get?), s)
  | .findArchivedNode id => (.ok (s.archived.get? id), s)
  | .idExists id => (.ok (s.hasId id), s)
  | .codeOwner code => (.ok (s.ownerOf code), s)
  | .listNodes lifecycle filter page => (.ok (page.window (s.accepted lifecycle filter)), s)
  | .countNodes lifecycle filter => (.ok (s.accepted lifecycle filter).length, s)
  | .deleteNode id => (.ok (s.active.contains id), { s with active := s.active.erase id })
  | .archiveNode id => let (found, s) := s.archiveNode id; (.ok found, s)
  | .restoreNode id => let (found, s) := s.restoreNode id; (.ok found, s)
  | .deleteArchivedNode id =>
    (.ok (s.archived.contains id), { s with archived := s.archived.erase id })
  | .insertPaths rows => s.insertPaths rows
  | .updateDepths rows => (.ok (), s.updateDepths rows)
  | .deletePaths rows => let (n, s) := s.deletePaths rows; (.ok n, s)
  | .deletePathsOf id => let (n, s) := s.deletePathsOf id; (.ok n, s)
  | .findPath a d => (.ok ((s.paths.get? (a, d)).map fun depth => ⟨a, d, depth⟩), s)
  | .ancestorsOf id => (.ok (s.rows.filter fun p => p.descendant == id), s)
  | .descendantsOf id => (.ok (s.rows.filter fun p => p.ancestor == id), s)
  | .pathsBetween ancestors descendants =>
    (.ok (s.rows.filter fun p =>
      ancestors.contains p.ancestor && descendants.contains p.descendant), s)
  | .allPaths => (.ok s.rows, s)
  | .rootIds page => (.ok (page.window s.roots), s)
  | .countRoots => (.ok s.roots.length, s)
  | .directDescendantIds ancestor page => (.ok (page.window (s.children ancestor)), s)
  | .countDirectDescendants ancestor => (.ok (s.children ancestor).length, s)
  | .descendantIds ids =>
    (.ok (KeySet.ofList ((s.rows.filter fun p => 1 ≤ p.depth && ids.contains p.ancestor).map
      (·.descendant))).keys, s)
  | .ancestorsWithDescendants ids =>
    (.ok (KeySet.ofList ((s.rows.filter fun p => p.isDirect && ids.contains p.ancestor).map
      (·.ancestor))).keys, s)

end Contents

end Lineage

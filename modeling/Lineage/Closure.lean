import Lineage.Table
import Lineage.Path

/-!
# Closure of direct edges

A store keeps one row per reachable pair at its least depth. The functions here take rows and say
which rows to write; they do not touch a store.

* `linkCandidates`, `planLink`: the rows a new edge adds and the rows it shortens.
* `transitiveClosure`: shortest distances over the direct edges found in a list of rows.
* `reconcile`: what separates a list of rows from the closure of its own direct edges.

Depth-1 rows are exactly the direct edges, so the edge set can always be read back from a closure.
-/

namespace Lineage

/-- The depth of each connected `(ancestor, descendant)` pair. -/
abbrev DepthMap (k : Kind) := Table (NodeId k × NodeId k) UInt32

namespace DepthMap

variable {k : Kind}

/-- Record `depth` for `pair` unless a smaller or equal depth is recorded. -/
def relax (m : DepthMap k) (pair : NodeId k × NodeId k) (depth : UInt32) : DepthMap k :=
  match m.get? pair with
  | some d => if depth < d then m.insert pair depth else m
  | none => m.insert pair depth

/-- The rows of a depth map, by ancestor, then descendant. -/
def rows (m : DepthMap k) : List (Path k) := m.entries.map Path.ofEntry

/-- The depths of a list of rows; of several rows of one pair the last counts. -/
def ofRows (rows : List (Path k)) : DepthMap k := Table.ofList (rows.map fun p => (p.pair, p.depth))

end DepthMap

namespace Closure

variable {k : Kind}

/-! ## Linking -/

/-- Every pair that a new edge connects, at its least depth through that edge. `upper` holds the
rows that end at the edge's ancestor, `lower` the rows that start at its descendant. -/
def linkCandidates (upper lower : List (Path k)) : List (Path k) :=
  let through := upper.flatMap fun up => lower.map fun down =>
    ((up.ancestor, down.descendant), up.depth + 1 + down.depth)
  DepthMap.rows (through.foldl (fun m e => m.relax e.1 e.2) (∅ : DepthMap k))

/-- The rows to write when an edge is linked: pairs that were not connected, and pairs that were
connected by a longer chain only. -/
structure LinkPlan (k : Kind) where
  insert : List (Path k)
  shorten : List (Path k)
  deriving DecidableEq, Repr

/-- Whether there is nothing to write. -/
def LinkPlan.isEmpty (plan : LinkPlan k) : Bool := plan.insert.isEmpty && plan.shorten.isEmpty

/-- Split candidates by the stored rows of the same pairs. A candidate that is no shorter than the
stored row is dropped. -/
def planLink (candidates existing : List (Path k)) : LinkPlan k :=
  let known := DepthMap.ofRows existing
  { insert := candidates.filter fun c => (known.get? c.pair).isNone
    shorten := candidates.filter fun c => (known.get? c.pair).any (c.depth < ·) }

/-! ## Distances -/

/-- The direct edges among rows. -/
def edges (rows : List (Path k)) : List (NodeId k × NodeId k) :=
  (rows.filter Path.isDirect).map Path.pair

/-- The nodes of rows: ancestors of depth-0 rows and endpoints of direct edges. -/
def nodes (rows : List (Path k)) : KeySet (NodeId k) :=
  KeySet.ofList (rows.flatMap fun p =>
    if p.isSelf then [p.ancestor] else if p.isDirect then [p.ancestor, p.descendant] else [])

/-- The nodes one edge below `frontier` that have no distance yet, each once. -/
def nextFrontier (edges : List (NodeId k × NodeId k)) (seen : Table (NodeId k) UInt32)
    (frontier : List (NodeId k)) : List (NodeId k) :=
  (KeySet.ofList ((edges.filter fun e => frontier.contains e.1).map (·.2))).keys.filter
    fun y => !seen.contains y

/-- Give the nodes below `frontier`, which lies at `depth`, their distances, level by level, for
at most `levels` levels. -/
def spread (edges : List (NodeId k × NodeId k)) : (levels : Nat) → (depth : UInt32) →
    (frontier : List (NodeId k)) → (seen : Table (NodeId k) UInt32) → Table (NodeId k) UInt32
  | 0, _, _, seen => seen
  | levels + 1, depth, frontier, seen =>
    match nextFrontier edges seen frontier with
    | [] => seen
    | fresh =>
      spread edges levels (depth + 1) fresh
        (fresh.foldl (fun s y => s.insert y (depth + 1)) seen)

/-- The distance from `root` to every node reachable from it, itself included. Each level uses up
an edge target of its own, so there are at most as many levels as edges. -/
def distances (edges : List (NodeId k × NodeId k)) (root : NodeId k) : Table (NodeId k) UInt32 :=
  spread edges edges.length 0 [root] ((∅ : Table (NodeId k) UInt32).insert root 0)

/-- The distance of every pair of nodes connected by the direct edges among `rows`. -/
def transitiveClosure (rows : List (Path k)) : DepthMap k :=
  let direct := edges rows
  Table.ofList ((nodes rows).keys.flatMap fun root =>
    (distances direct root).entries.map fun e => ((root, e.1), e.2))

/-! ## Repair -/

/-- The difference between stored rows and the closure of their direct edges. -/
structure Reconciliation (k : Kind) where
  /-- Rows that no chain of direct edges implies. -/
  stale : List (Path k)
  /-- Implied pairs without a row. -/
  missing : List (Path k)
  /-- Stored pairs at another depth, with the depth they should have. -/
  redepth : List (Path k)
  deriving DecidableEq, Repr

/-- Whether there is nothing to repair. -/
def Reconciliation.isEmpty (r : Reconciliation k) : Bool :=
  r.stale.isEmpty && r.missing.isEmpty && r.redepth.isEmpty

/-- Compare stored rows with the closure of the direct edges among them. -/
def reconcile (stored : List (Path k)) : Reconciliation k :=
  let closure := transitiveClosure stored
  let present := KeySet.ofList (stored.map Path.pair)
  { stale := stored.filter fun p => !closure.contains p.pair
    missing := DepthMap.rows (closure.filter fun pair _ => !present.contains pair)
    redepth := stored.filterMap fun p =>
      match closure.get? p.pair with
      | some depth => if depth = p.depth then none else some { p with depth }
      | none => none }

end Closure

end Lineage

import Lineage.Closure

/-!
# Views of a hierarchy

What an access check has to know about a hierarchy: which node has a code, and which nodes lie
below given ones. Either question may fail, with a text.

* `View.ofEdges`: the view of a graph given by its edges.
-/

namespace Lineage

/-- The questions an access check asks about the hierarchy of kind `k`. -/
structure View (k : Kind) where
  idByCode : String → Except String (Option (NodeId k))
  /-- The nodes at least one edge below any of the given ones. -/
  descendantIds : List (NodeId k) → Except String (List (NodeId k))

namespace View

variable {k : Kind}

/-- The nodes at least one edge below any of `ids`, ascending. -/
def below (edges : List (NodeId k × NodeId k)) (ids : List (NodeId k)) : List (NodeId k) :=
  let first := Closure.nextFrontier edges ∅ ids
  let seen := first.foldl (fun s y => s.insert y 1) (∅ : Table (NodeId k) UInt32)
  (Closure.spread edges edges.length 1 first seen).keys

/-- The view of a graph whose nodes are named by codes. -/
def ofEdges (codes : Table String (NodeId k)) (edges : List (NodeId k × NodeId k)) : View k where
  idByCode code := .ok (codes.get? code)
  descendantIds ids := .ok (below edges ids)

end View

end Lineage

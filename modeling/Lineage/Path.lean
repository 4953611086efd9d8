import Lineage.Ident

/-!
# Closure rows

A `Path k` records that `descendant` is reachable from `ancestor`. In a stored closure its
`depth` is the length of the shortest chain of direct edges between the two: 0 for the row every
node has for itself, 1 for a direct edge.
-/

open Std

namespace Lineage

/-- One reachable pair of nodes and the distance between them. -/
structure Path (k : Kind) where
  ancestor : NodeId k
  descendant : NodeId k
  depth : UInt32
  deriving DecidableEq, Repr, Inhabited

namespace Path

variable {k : Kind}

/-- The row every node has for itself. -/
def self (id : NodeId k) : Path k := ⟨id, id, 0⟩

/-- The row of a direct edge. -/
def direct (ancestor descendant : NodeId k) : Path k := ⟨ancestor, descendant, 1⟩

/-- The pair of nodes a row is about. -/
def pair (p : Path k) : NodeId k × NodeId k := (p.ancestor, p.descendant)

/-- Depth 0, whatever the endpoints. -/
def isSelf (p : Path k) : Bool := p.depth == 0

/-- Depth 1. -/
def isDirect (p : Path k) : Bool := p.depth == 1

/-- Rows are ordered by ancestor, then descendant, then depth. -/
instance : Ord (Path k) := ⟨compareLex (compareOn pair) (compareOn depth)⟩

instance : TransOrd (Path k) :=
  inferInstanceAs (TransCmp (compareLex (compareOn pair) (compareOn depth)))

/-- The row of an entry of a depth map. -/
def ofEntry (e : (NodeId k × NodeId k) × UInt32) : Path k := ⟨e.1.1, e.1.2, e.2⟩

end Path

end Lineage

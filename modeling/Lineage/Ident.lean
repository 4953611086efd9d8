/-!
# Kinds and node ids

A `Kind` names one hierarchy (roles, permissions, ...). A `NodeId k` is a 64-bit integer that
identifies a node of the hierarchy of kind `k`; ids of different kinds have different types and
are never mixed up. Ids are ordered as integers.
-/

open Std

namespace Lineage

/-- One hierarchy, named by a singular lowercase word that shows in error texts, cache keys,
job routes and table names. -/
structure Kind where
  name : String
  deriving DecidableEq, Repr, Inhabited

/-- The identifier of a node of kind `k`. -/
structure NodeId (k : Kind) where
  raw : Int64
  deriving DecidableEq, Repr, Inhabited

namespace NodeId

variable {k : Kind}

instance : Ord (NodeId k) := ⟨compareOn raw⟩

instance : TransOrd (NodeId k) := inferInstanceAs (TransCmp (compareOn raw))

instance : LawfulEqOrd (NodeId k) where
  eq_of_compare {a b} h := by
    cases a; cases b
    exact congrArg mk (LawfulEqOrd.eq_of_compare (α := Int64) h)

/-- The id as an integer. -/
def toInt (id : NodeId k) : Int := id.raw.toInt

/-- The decimal digits of the id, after a minus sign if it is negative. -/
def text (id : NodeId k) : String := id.toInt.repr

/-- The id with its kind, as in `role#3`. -/
def tagged (id : NodeId k) : String := k.name ++ "#" ++ id.text

/-- The id of an integer that fits 64 bits. -/
def ofInt? (n : Int) : Option (NodeId k) :=
  if (Int64.ofInt n).toInt = n then some ⟨Int64.ofInt n⟩ else none

end NodeId

instance {k : Kind} : Ord (NodeId k × NodeId k) := lexOrd

instance {k : Kind} : TransOrd (NodeId k × NodeId k) :=
  inferInstanceAs (TransCmp (compareLex (compareOn Prod.fst) (compareOn Prod.snd)))

instance {k : Kind} : LawfulEqOrd (NodeId k × NodeId k) where
  eq_of_compare {a b} h := by
    have h : (compareOn (α := NodeId k × NodeId k) Prod.fst a b).then
        (compareOn Prod.snd a b) = .eq := h
    rw [Ordering.then_eq_eq] at h
    exact Prod.ext (LawfulEqOrd.eq_of_compare h.1) (LawfulEqOrd.eq_of_compare h.2)

end Lineage

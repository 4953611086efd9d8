import Lineage.Ident
import Lineage.Table

/-!
# Consumers of nodes

A `Registry k` records who uses which node: a role uses the permissions it holds. A node in use is
neither archived nor removed.

* `attach`, `release`: a consumer takes up a node or lets go of it.
* `consumersOf`: the consumers of a node, by code, then display name.
* `Guard`: who answers the question whether a node is in use.
-/

open Std

namespace Lineage

/-- Something outside the hierarchy that uses a node. -/
structure Consumer where
  code : String
  displayName : String
  deriving DecidableEq, Repr, Inhabited

namespace Consumer

/-- Consumers are ordered by code, then display name. -/
instance : Ord Consumer := ⟨compareLex (compareOn code) (compareOn displayName)⟩

instance : TransOrd Consumer :=
  inferInstanceAs (TransCmp (compareLex (compareOn code) (compareOn displayName)))

instance : LawfulEqOrd Consumer where
  eq_of_compare {a b} h := by
    have h : (compareOn code a b).then (compareOn displayName a b) = .eq := h
    rw [Ordering.then_eq_eq] at h
    cases a; cases b
    exact (Consumer.mk.injEq ..).mpr
      ⟨LawfulEqOrd.eq_of_compare h.1, LawfulEqOrd.eq_of_compare h.2⟩

end Consumer

/-- The consumers of every node that has any. -/
structure Registry (k : Kind) where
  consumers : Table (NodeId k) (KeySet Consumer) := ∅
  deriving Inhabited

namespace Registry

variable {k : Kind}

/-- The set of consumers of a node. -/
def setOf (r : Registry k) (id : NodeId k) : KeySet Consumer := (r.consumers.get? id).getD ∅

/-- The consumers of a node, by code, then display name. -/
def consumersOf (r : Registry k) (id : NodeId k) : List Consumer := (r.setOf id).keys

/-- Record that a consumer uses a node. -/
def attach (r : Registry k) (id : NodeId k) (c : Consumer) : Registry k :=
  ⟨r.consumers.insert id ((r.setOf id).insert c ())⟩

/-- Forget every consumer of a node that has the code, whatever its display name. The answer says
whether there was one. -/
def release (r : Registry k) (id : NodeId k) (code : String) : Bool × Registry k :=
  let before := r.setOf id
  let after := before.filter fun c _ => !(c.code == code)
  (after.size != before.size,
    ⟨if after.isEmpty then r.consumers.erase id else r.consumers.insert id after⟩)

end Registry

/-- The question whether a node is in use could not be answered. -/
inductive GuardError
  | unavailable (detail : String)
  deriving DecidableEq, Repr

/-- The failure in words. -/
def GuardError.message : GuardError → String
  | unavailable detail => "reference check failed: " ++ detail

/-- Who answers the question whether a node is in use. -/
inductive Guard
  /-- Nothing ever uses a node. -/
  | absent
  /-- The registry answers. -/
  | registry
  /-- Nobody answers. -/
  | failing (cause : GuardError)
  /-- Someone answers who is asked by the integer of the id. -/
  | asked (answer : Int → Except GuardError (List Consumer))

/-- The consumers of a node as the guard reports them. -/
def Guard.consumersOf {k : Kind} (g : Guard) (r : Registry k) (id : NodeId k) :
    Except GuardError (List Consumer) :=
  match g with
  | absent => .ok []
  | registry => .ok (r.consumersOf id)
  | failing cause => .error cause
  | asked answer => answer id.toInt

end Lineage

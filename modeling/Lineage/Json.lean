import Lineage.Binary64
import Lineage.Table

/-!
# JSON values

Free JSON as it travels in extensions and job payloads. The members of an object are a list of
pairs, in the order of the text they were read from, so that a reader of records can see a key
that is written twice. `Json.canonical` gives the form in which free JSON is kept: keys ascend
and the last member of a key counts.
-/

namespace Lineage

/-- A JSON number: an integer of up to 64 bits, signed or not, or else a binary fraction. -/
inductive Json.Number
  | integer (n : Int)
  | binary (x : Binary64)
  deriving DecidableEq, Repr, Inhabited

/-- A JSON value. -/
inductive Json
  | null
  | bool (b : Bool)
  | number (n : Json.Number)
  | string (s : String)
  | array (items : List Json)
  | object (members : List (String × Json))
  deriving BEq, Repr, Inhabited

namespace Json

/-- An integer as a JSON number. -/
def int (n : Int) : Json := .number (.integer n)

/-- A natural number as a JSON number. -/
def nat (n : Nat) : Json := .int n

/-- Whether a number is written without a fraction or exponent: it fits 64 bits, with a sign or
without. -/
def fitsInteger (n : Int) : Bool := Int64.minValue.toInt ≤ n ∧ n < UInt64.size

/-- The value of the last member of an object with key `k`. -/
def member? (j : Json) (k : String) : Option Json :=
  match j with
  | .object members => (members.reverse.find? fun m => m.1 == k).map (·.2)
  | _ => none

/-- The integer a number is, if it is written as one. -/
def int? : Json → Option Int
  | .number (.integer n) => some n
  | _ => none

/-- Members in ascending key order, the last of a key counting. -/
def sortMembers (members : List (String × Json)) : List (String × Json) :=
  (Table.ofList members).entries

mutual

/-- The same value with the members of every object in ascending key order, each key once. -/
def canonical : Json → Json
  | .array items => .array (canonicalItems items)
  | .object members => .object (sortMembers (canonicalMembers members))
  | j => j
termination_by structural j => j

/-- `canonical` of every item. -/
def canonicalItems : List Json → List Json
  | [] => []
  | j :: rest => j.canonical :: canonicalItems rest
termination_by structural items => items

/-- `canonical` of every member. -/
def canonicalMembers : List (String × Json) → List (String × Json)
  | [] => []
  | (k, j) :: rest => (k, j.canonical) :: canonicalMembers rest
termination_by structural members => members

end

end Json

end Lineage

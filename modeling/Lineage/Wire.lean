import Lineage.Json.Printer
import Lineage.Json.Reader

/-!
# Values as JSON

`Wire α` writes the values of a type as JSON and reads them back. Records are objects whose
members stand in declaration order. They are read as objects, other keys being ignored, or as
arrays of the field values in declaration order. From text, what stands under other keys is passed
over without being read.

* A required field must be there, and is `null` only if its type has a `null`.
* An optional field may be missing from an object and then counts as `null`.
* A field with a default may be missing from an object or from the end of an array.
-/

namespace Lineage

/-- A type whose values are written as JSON and read back. -/
class Wire (α : Type) where
  /-- What a reader of text keeps for a value. -/
  shape : Json.Shape := .plain
  encode : α → Json
  decode? : Json → Option α

namespace Wire

/-- An integer within bounds. -/
def integer? (low high : Int) (j : Json) : Option Int := do
  let n ← j.int?
  if low ≤ n ∧ n < high then some n else none

instance : Wire Bool where
  encode := .bool
  decode?
    | .bool b => some b
    | _ => none

instance : Wire String where
  encode := .string
  decode?
    | .string s => some s
    | _ => none

instance : Wire UInt32 where
  encode n := .nat n.toNat
  decode? j := (integer? 0 UInt32.size j).map fun n => UInt32.ofNat n.toNat

instance : Wire UInt64 where
  encode n := .nat n.toNat
  decode? j := (integer? 0 UInt64.size j).map fun n => UInt64.ofNat n.toNat

instance : Wire Int64 where
  encode n := .int n.toInt
  decode? j := (integer? Int64.minValue.toInt (Int64.maxValue.toInt + 1) j).map Int64.ofInt

/-- Free JSON is kept in canonical form. -/
instance : Wire Json where
  shape := .free
  encode j := j
  decode? j := some j.canonical

/-- A table of free JSON is an object. -/
instance : Wire (Table String Json) where
  encode t := .object t.entries
  decode?
    | .object members => some (Table.ofList (Json.canonicalMembers members))
    | _ => none

instance {α : Type} [Wire α] : Wire (Option α) where
  shape := Wire.shape α
  encode
    | some a => encode a
    | none => .null
  decode?
    | .null => some none
    | j => (decode? j).map some

instance {α : Type} [Wire α] : Wire (List α) where
  shape := .list (Wire.shape α)
  encode items := .array (items.map encode)
  decode?
    | .array items => items.mapM decode?
    | _ => none

/-- The compact JSON text of a value. -/
def write {α : Type} [Wire α] (a : α) : String := (encode a).text

/-- The value that a JSON text spells. -/
def read? {α : Type} [Wire α] (s : String) : Option α := Json.read? (shape α) s >>= decode?

end Wire

/-! ## Records -/

/-- The fields found in a record. -/
structure Record where
  fields : List (String × Json)
  /-- Whether the fields were told apart by position. -/
  positional : Bool

namespace Record

/-- The fields of a record of a shape, from an object that has none of them twice, or from an array
of no more items than the record has fields. -/
def open? (shape : Json.Shape) : Json → Option Record
  | .object members =>
    let named := members.filter fun m => shape.names.contains m.1
    if named.length = (named.map (·.1)).eraseDups.length then some ⟨named, false⟩ else none
  | .array items =>
    if items.length ≤ shape.names.length then some ⟨shape.names.zip items, true⟩ else none
  | _ => none

/-- The JSON value of a field. -/
def find? (r : Record) (name : String) : Option Json :=
  (r.fields.find? fun f => f.1 == name).map (·.2)

variable {α : Type} [Wire α]

/-- A field that must be there. -/
def required? (r : Record) (name : String) : Option α := r.find? name >>= Wire.decode?

/-- A field that may be missing from an object. -/
def optional? (r : Record) (name : String) : Option (Option α) :=
  match r.find? name with
  | some j => Wire.decode? j
  | none => if r.positional then none else some none

/-- A field with a default. -/
def defaulted? (r : Record) (name : String) (default : α) : Option α :=
  match r.find? name with
  | some j => Wire.decode? j
  | none => some default

end Record

end Lineage

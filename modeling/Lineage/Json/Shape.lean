/-!
# Shapes of JSON text

What a reader of text expects at a place, as far as it bears on what it takes from there: which
members of an object it keeps, and which objects are free JSON.
-/

namespace Lineage.Json

/-- What is expected at a place of a text. -/
inductive Shape
  /-- A text, a number, a flag, or a table of free JSON. -/
  | plain
  /-- Free JSON. -/
  | free
  /-- An array of values of one shape. -/
  | list (item : Shape)
  /-- An object, or an array of the fields in this order. What stands under other names is passed
  over. -/
  | record (fields : List (String × Shape))
  /-- An object that is kept as a whole. -/
  | closed (fields : List (String × Shape))
  deriving Repr, Inhabited

namespace Shape

/-- The names of the fields. -/
def names : Shape → List String
  | record fields | closed fields => fields.map (·.1)
  | _ => []

/-- The shape of a member, or `none` if it is passed over. -/
def member? : Shape → String → Option Shape
  | record fields, name => fields.lookup name
  | closed fields, name => some ((fields.lookup name).getD free)
  | _, _ => some free

/-- The shape of the item at an index of an array. -/
def item : Shape → Nat → Shape
  | list s, _ => s
  | record fields, i => ((fields[i]?).map (·.2)).getD free
  | _, _ => free

end Shape

end Lineage.Json

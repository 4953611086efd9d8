import Lineage.Wire.Node

/-!
# Answers as JSON

`Report α` writes the values of a type as JSON to be looked at. What is also read back has one
form for both (`Wire`). Closure rows alone are reported in a shorter one, as triples.

An answer is an object: `ok` with a value, or `error` with the kind of a failure and its words.
-/

namespace Lineage

/-- A type whose values are shown as JSON. -/
class Report (α : Type) where
  json : α → Json

namespace Report

/-- What is read back is shown in the form in which it is read. -/
instance (priority := low) {α : Type} [Wire α] : Report α := ⟨Wire.encode⟩

instance : Report Unit := ⟨fun _ => .null⟩
instance : Report Nat := ⟨.nat⟩
instance : Report Int := ⟨.int⟩

section Containers

variable {α ε : Type} [Report α] [Report ε]

instance : Report (Option α) := ⟨fun a => a.elim .null json⟩
instance : Report (List α) := ⟨fun items => .array (items.map json)⟩

/-- A set is the list of its members, ascending. -/
instance {κ : Type} [Ord κ] [Report κ] : Report (KeySet κ) := ⟨fun s => json s.keys⟩

/-- The answer with a value. -/
def ok (a : α) : Json := .object [("ok", json a)]

/-- A failure is reported as an answer of its own. -/
instance : Report (Except ε α) where
  json
    | .ok a => ok a
    | .error e => json e

end Containers

/-- The answer that tells of a failure. -/
def failure (kind message : String) : Json :=
  .object [("error", .string kind), ("message", .string message)]

/-- A closure row as ancestor, descendant and depth. -/
instance {k : Kind} : Report (Path k) where
  json p := .array [json p.ancestor, json p.descendant, json p.depth]

end Report

end Lineage

import Lineage.Json.Passing
import Lineage.Json.Printer
import Lineage.Json.Shape

/-!
# Reading JSON text

`Json.read?` reads one value of a shape with blanks around it and nothing else. It refuses what the
format refuses and besides a value nested more than 127 deep and a number beyond the largest binary
fraction. What the shape has no place for is passed over.

Members are kept in the order of the text, repeated keys included. An integer that does not fit
64 bits, and the integer `-0`, become fractions. Where JSON is free, an object with the single key
`Json.embeddingKey` stands for the value that the text under the key spells, and a longer object
must not begin with that key.

`Json.parse?` reads free JSON and puts it into canonical form. A value that was read may be taken
over as a value of a shape if it is settled: the rule on embedding keys holds of it as it stands.
-/

namespace Lineage.Json

/-- How deep values may be nested. -/
def maxDepth : Nat := 127

/-- A key and its colon. -/
def key? (cs : List Char) : Option (String × List Char) :=
  match skipBlanks cs with
  | '"' :: rest => do
    let (key, rest) ← stringBody? (rest.length + 1) rest
    match skipBlanks rest with
    | ':' :: rest => some (String.ofList key, rest)
    | _ => none
  | _ => none

/-- The key under which free JSON may hold the text of a value in place of the value. -/
def embeddingKey : String := "$serde_json::private::RawValue"

mutual

/-- A value of a shape, after blanks, nested at most `depth` deep. -/
def value? : (fuel depth : Nat) → Shape → List Char → Option (Json × List Char)
  | 0, _, _, _ => none
  | fuel + 1, depth, shape, cs =>
    match skipBlanks cs with
    | 'n' :: 'u' :: 'l' :: 'l' :: rest => some (.null, rest)
    | 't' :: 'r' :: 'u' :: 'e' :: rest => some (.bool true, rest)
    | 'f' :: 'a' :: 'l' :: 's' :: 'e' :: rest => some (.bool false, rest)
    | '"' :: rest => do
      let (s, rest) ← stringBody? (rest.length + 1) rest
      some (.string (String.ofList s), rest)
    | '[' :: rest =>
      match depth with
      | 0 => none
      | depth + 1 =>
        match skipBlanks rest with
        | ']' :: rest => some (.array [], rest)
        | rest => do
          let (items, rest) ← items? fuel depth shape 0 rest
          some (.array items, rest)
    | '\x7b' :: rest =>
      match depth with
      | 0 => none
      | depth + 1 =>
        match skipBlanks rest with
        | '\x7d' :: rest => some (.object [], rest)
        | rest => do
          let (members, rest) ← members? fuel depth shape rest
          match shape, members with
          | .free, (key, value) :: others =>
            if key = embeddingKey then
              match value, others with
              | .string s, [] => do some (← embedded? fuel s.toList, rest)
              | _, _ => none
            else some (.object members, rest)
          | _, _ => some (.object members, rest)
    | cs => do
      let (m, rest) ← numeral? cs
      some (.number (← m.number?), rest)
termination_by structural fuel => fuel

/-- The free JSON that makes up a text, blanks around it allowed. -/
def embedded? : (fuel : Nat) → List Char → Option Json
  | 0, _ => none
  | fuel + 1, cs => do
    let (j, rest) ← value? fuel maxDepth .free cs
    if (skipBlanks rest).isEmpty then some j else none
termination_by structural fuel => fuel

/-- One or more items, the first at an index, and the closing bracket. -/
def items? : (fuel depth : Nat) → Shape → (index : Nat) → List Char →
    Option (List Json × List Char)
  | 0, _, _, _, _ => none
  | fuel + 1, depth, shape, index, cs => do
    let (j, rest) ← value? fuel depth (shape.item index) cs
    match skipBlanks rest with
    | ',' :: rest => do
      let (items, rest) ← items? fuel depth shape (index + 1) rest
      some (j :: items, rest)
    | ']' :: rest => some ([j], rest)
    | _ => none
termination_by structural fuel => fuel

/-- One or more members and the closing brace. -/
def members? : (fuel depth : Nat) → Shape → List Char →
    Option (List (String × Json) × List Char)
  | 0, _, _, _ => none
  | fuel + 1, depth, shape, cs => do
    let (key, rest) ← key? cs
    let (kept, rest) ← match shape.member? key with
      | some s => do
        let (j, rest) ← value? fuel depth s rest
        some ([(key, j)], rest)
      | none => (pass? rest).map fun rest => ([], rest)
    match skipBlanks rest with
    | ',' :: rest => do
      let (members, rest) ← members? fuel depth shape rest
      some (kept ++ members, rest)
    | '\x7d' :: rest => some (kept, rest)
    | _ => none
termination_by structural fuel => fuel

end

/-- The value of a shape that a text spells, blanks around it allowed, as it stands there. Every
step of the reader but one per value takes a character, so twice the length is fuel enough. -/
def read? (shape : Shape) (s : String) : Option Json :=
  let cs := s.toList
  match value? (2 * cs.length + 2) maxDepth shape cs with
  | some (j, rest) => if (skipBlanks rest).isEmpty then some j else none
  | none => none

/-- The free JSON that a text spells. -/
def parse? (s : String) : Option Json := (read? .free s).map canonical

/-- What free JSON becomes when its text is read again. -/
def reread? (j : Json) : Option Json := parse? j.text

/-! ## Taking over what was read -/

/-- Whether an object at a place of a shape is free and begins with the embedding key. -/
def opensEmbedding : Shape → List (String × Json) → Bool
  | .free, (key, _) :: _ => key == embeddingKey
  | _, _ => false

mutual

/-- Whether no free object within a value of a shape begins with the embedding key. What the shape
passes over may hold anything. -/
def isSettled : Shape → Json → Bool
  | shape, .array items => itemsSettled shape 0 items
  | shape, .object members => !opensEmbedding shape members && membersSettled shape members
  | _, _ => true
termination_by structural _ j => j

/-- `isSettled` of every item, the first at an index. -/
def itemsSettled : Shape → (index : Nat) → List Json → Bool
  | _, _, [] => true
  | shape, index, j :: rest =>
    isSettled (shape.item index) j && itemsSettled shape (index + 1) rest
termination_by structural _ _ items => items

/-- `isSettled` of every member that the shape has a place for. -/
def membersSettled : Shape → List (String × Json) → Bool
  | _, [] => true
  | shape, (key, j) :: rest =>
    (match shape.member? key with
      | some s => isSettled s j
      | none => true) && membersSettled shape rest
termination_by structural _ members => members

end

end Lineage.Json

import Lineage.Json.Token

/-!
# Passing over JSON text

`Json.pass?` finds the end of a value that nobody looks at. The value has to be well formed, but it
may be nested as deep as it likes, its numbers may be as large, and its strings may hold halves of
surrogate pairs.
-/

namespace Lineage.Json

/-- What follows a string whose opening quote is read. -/
def passString? : List Char → Option (List Char)
  | [] => none
  | '"' :: rest => some rest
  | '\\' :: 'u' :: a :: b :: c :: d :: rest =>
    if [a, b, c, d].all fun x => (Text.hexDigit? x).isSome then passString? rest else none
  | '\\' :: c :: rest =>
    if ['"', '\\', '/', 'b', 'f', 'n', 'r', 't'].contains c then passString? rest else none
  | c :: rest => if c.toNat < 32 then none else passString? rest

/-- What follows a key and its colon. -/
def passKey? (cs : List Char) : Option (List Char) :=
  match skipBlanks cs with
  | '"' :: rest => do
    match skipBlanks (← passString? rest) with
    | ':' :: rest => some rest
    | _ => none
  | _ => none

/-- What a value is inside of. -/
inductive Bracket
  | array
  | object
  deriving DecidableEq

mutual

/-- What follows a value and the brackets that it is inside of, the innermost first. -/
def passValue? : (fuel : Nat) → (inside : List Bracket) → List Char → Option (List Char)
  | 0, _, _ => none
  | fuel + 1, inside, cs =>
    match skipBlanks cs with
    | 'n' :: 'u' :: 'l' :: 'l' :: rest => passEnd? fuel inside rest
    | 't' :: 'r' :: 'u' :: 'e' :: rest => passEnd? fuel inside rest
    | 'f' :: 'a' :: 'l' :: 's' :: 'e' :: rest => passEnd? fuel inside rest
    | '"' :: rest => passString? rest >>= passEnd? fuel inside
    | '[' :: rest =>
      match skipBlanks rest with
      | ']' :: rest => passEnd? fuel inside rest
      | rest => passValue? fuel (.array :: inside) rest
    | '\x7b' :: rest =>
      match skipBlanks rest with
      | '\x7d' :: rest => passEnd? fuel inside rest
      | rest => passKey? rest >>= passValue? fuel (.object :: inside)
    | cs => numeral? cs >>= fun m => passEnd? fuel inside m.2
termination_by structural fuel => fuel

/-- What follows the brackets that a value is inside of, the value being read. -/
def passEnd? : (fuel : Nat) → (inside : List Bracket) → List Char → Option (List Char)
  | 0, _, _ => none
  | _ + 1, [], cs => some cs
  | fuel + 1, .array :: inside, cs =>
    match skipBlanks cs with
    | ',' :: rest => passValue? fuel (.array :: inside) rest
    | ']' :: rest => passEnd? fuel inside rest
    | _ => none
  | fuel + 1, .object :: inside, cs =>
    match skipBlanks cs with
    | ',' :: rest => passKey? rest >>= passValue? fuel (.object :: inside)
    | '\x7d' :: rest => passEnd? fuel inside rest
    | _ => none
termination_by structural fuel => fuel

end

/-- What follows a value. Every step but one per value takes a character, so twice the length is
fuel enough. -/
def pass? (cs : List Char) : Option (List Char) := passValue? (2 * cs.length + 2) [] cs

end Lineage.Json

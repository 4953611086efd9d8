import Lineage.Json

/-!
# Compact JSON text

No blanks are written. In strings, quotes, backslashes and control characters are escaped: the
five with a letter of their own by it, the others as `\u00xx` with lowercase digits. Every other
character stands for itself.
-/

namespace Lineage.Json

/-- The lowercase hexadecimal digit of a number below 16. -/
def hexDigit (n : Nat) : Char := if n < 10 then Char.ofNat (48 + n) else Char.ofNat (87 + n)

/-- One character as it is written inside a string. -/
def escape (c : Char) : List Char :=
  if c = '"' then ['\\', '"']
  else if c = '\\' then ['\\', '\\']
  else if c = '\x08' then ['\\', 'b']
  else if c = '\x0c' then ['\\', 'f']
  else if c = '\n' then ['\\', 'n']
  else if c = '\r' then ['\\', 'r']
  else if c = '\t' then ['\\', 't']
  else if c.toNat < 32 then
    ['\\', 'u', '0', '0', hexDigit (c.toNat / 16), hexDigit (c.toNat % 16)]
  else [c]

/-- A string between quotes. -/
def quoted (s : String) : List Char := '"' :: (s.toList.flatMap escape ++ ['"'])

/-- An integer in decimal digits, or a fraction in the fewest digits that read back. -/
def Number.chars : Number → List Char
  | .integer n => n.repr.toList
  | .binary x => x.chars

mutual

/-- The compact text of a value. -/
def chars : Json → List Char
  | .null => ['n', 'u', 'l', 'l']
  | .bool true => ['t', 'r', 'u', 'e']
  | .bool false => ['f', 'a', 'l', 's', 'e']
  | .number n => n.chars
  | .string s => quoted s
  | .array items => '[' :: (itemChars items ++ [']'])
  | .object members => '\x7b' :: (memberChars members ++ ['\x7d'])
termination_by structural j => j

/-- Items separated by commas. -/
def itemChars : List Json → List Char
  | [] => []
  | [j] => j.chars
  | j :: rest => j.chars ++ ',' :: itemChars rest
termination_by structural items => items

/-- Members separated by commas. -/
def memberChars : List (String × Json) → List Char
  | [] => []
  | [(k, j)] => quoted k ++ ':' :: j.chars
  | (k, j) :: rest => quoted k ++ ':' :: (j.chars ++ ',' :: memberChars rest)
termination_by structural members => members

end

/-- The compact text of a value. -/
def text (j : Json) : String := String.ofList j.chars

end Lineage.Json

import Lineage.Text.Numeral

/-!
# Escaped bytes in addresses

A part of an address stands for bytes: `%` and two hexadecimal digits for the byte of that number,
every other character for the bytes of its encoding.
-/

namespace Lineage.Address

/-- The bytes that a part of an address stands for. -/
def bytes : List Char → List UInt8
  | '%' :: a :: b :: rest =>
    match Text.hexDigit? a, Text.hexDigit? b with
    | some a, some b => UInt8.ofNat (16 * a + b) :: bytes rest
    | _, _ => '%'.toUInt8 :: bytes (a :: b :: rest)
  | c :: rest => String.utf8EncodeChar c ++ bytes rest
  | [] => []

/-- Whether a part of an address stands for the bytes of a text. -/
def isText (part : List Char) : Bool := (bytes part).toByteArray.validateUTF8

/-- The bytes of a part of a query, where `+` stands for a blank, each as the character of its
number. ASCII text is recognised by it. -/
def queryText (part : List Char) : List Char :=
  (bytes (part.map fun c => if c = '+' then ' ' else c)).map fun b => Char.ofNat b.toNat

end Lineage.Address

import Lineage.Text.HiddenTable
import Lineage.Text.Lower

/-!
# Quotations

A text between double quotes, as error messages show it. Every character is visible: a quote and a
backslash stand behind a backslash, the common controls have a letter, and what has no look of its
own is spelled as `\u` and the hexadecimal digits of its number in braces.
-/

namespace Lineage.Text

/-- Characters without a look of their own. -/
def isHidden (c : Char) : Bool := inRanges hiddenRanges c.toNat

/-- A character as it appears in a quotation. -/
def quotedChar (c : Char) : List Char :=
  if c = '"' then ['\\', '"']
  else if c = '\\' then ['\\', '\\']
  else if c = '\n' then ['\\', 'n']
  else if c = '\r' then ['\\', 'r']
  else if c = '\t' then ['\\', 't']
  else if c = '\x00' then ['\\', '0']
  else if isHidden c then '\\' :: 'u' :: '\x7b' :: (Nat.toDigits 16 c.toNat ++ ['\x7d'])
  else [c]

/-- A text between quotes. -/
def quotation (s : String) : String :=
  String.ofList ('"' :: (s.toList.flatMap quotedChar ++ ['"']))

end Lineage.Text

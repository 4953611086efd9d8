import Lineage.Text.Lower
import Lineage.Text.Numeral

/-!
# Universally unique identifiers

128 bits, written as 32 lowercase hexadecimal digits in groups of 8, 4, 4, 4 and 12. They are read
in either case, also without hyphens, in braces, or after `urn:uuid:` (in either case as well).
-/

open Std

namespace Lineage

/-- A universally unique identifier. -/
structure Uuid where
  bits : BitVec 128
  deriving DecidableEq, Repr, Inhabited

namespace Uuid

instance : Ord Uuid := ⟨compareOn bits⟩

instance : TransOrd Uuid := inferInstanceAs (TransCmp (compareOn bits))

instance : LawfulEqOrd Uuid where
  eq_of_compare {a b} h := by
    cases a; cases b
    exact congrArg mk (LawfulEqOrd.eq_of_compare (α := BitVec 128) h)

/-- The identifier of a number below 2¹²⁸. -/
def ofNat (n : Nat) : Uuid := ⟨BitVec.ofNat 128 n⟩

/-- The lowercase hexadecimal digit of a number below 16. -/
def digit (n : Nat) : Char := if n < 10 then Char.ofNat (48 + n) else Char.ofNat (87 + n)

/-- The last `count` hexadecimal digits of a number. -/
def digits : (count : Nat) → Nat → List Char
  | 0, _ => []
  | count + 1, n => digits count (n / 16) ++ [digit (n % 16)]

/-- The written form. -/
def chars (u : Uuid) : List Char :=
  let n := u.bits.toNat
  digits 8 (n >>> 96) ++ '-' :: digits 4 (n >>> 80) ++ '-' :: digits 4 (n >>> 64) ++
    '-' :: digits 4 (n >>> 48) ++ '-' :: digits 12 n

/-- The written form. -/
def text (u : Uuid) : String := String.ofList u.chars

/-- The number that hexadecimal digits spell. -/
def number? (cs : List Char) : Option Nat :=
  cs.foldlM (fun n c => (Text.hexDigit? c).map fun d => 16 * n + d) 0

/-- 32 digits without hyphens. -/
def simple? (cs : List Char) : Option Uuid :=
  if cs.length = 32 then (number? cs).map ofNat else none

/-- 32 digits with hyphens after the 8th, 12th, 16th and 20th. -/
def hyphenated? (cs : List Char) : Option Uuid :=
  if cs.length = 36 ∧ [8, 13, 18, 23].all (fun i => cs[i]? = some '-') then
    simple? (cs.take 8 ++ (cs.drop 9).take 4 ++ (cs.drop 14).take 4 ++ (cs.drop 19).take 4 ++
      cs.drop 24)
  else none

/-- What stands before the digits of an identifier written as a resource name. -/
def resourceName : List Char := ['u', 'r', 'n', ':', 'u', 'u', 'i', 'd', ':']

/-- The identifier that a text spells. -/
def read? (s : String) : Option Uuid :=
  let cs := s.toList
  if cs.length = 32 then simple? cs
  else if cs.length = 38 ∧ cs.head? = some '\x7b' ∧ cs.getLast? = some '\x7d' then
    hyphenated? (cs.drop 1).dropLast
  else if cs.length = 45 ∧ Text.lowerAscii (cs.take 9) = resourceName then hyphenated? (cs.drop 9)
  else hyphenated? cs

end Uuid

end Lineage

/-!
# Numerals and flags

Decimal numbers of a limited width, with an optional sign, and the words `true` and `false`. A text
that is neither has a `NumeralFlaw`: of a wrong character and a number that grows too large, the
one that shows first from the left counts.
-/

namespace Lineage.Text

/-- Why a text is no number, or no flag. -/
inductive NumeralFlaw
  | badDigit
  | tooLarge
  | noFlag
  deriving DecidableEq, Repr

/-- The flaw in words. -/
def NumeralFlaw.text : NumeralFlaw → String
  | badDigit => "invalid digit found in string"
  | tooLarge => "number too large to fit in target type"
  | noFlag => "provided string was not \x60true\x60 or \x60false\x60"

/-- The value of a hexadecimal digit, of either case. -/
def hexDigit? (c : Char) : Option Nat :=
  let n := c.toNat
  if 48 ≤ n ∧ n ≤ 57 then some (n - 48)
  else if 97 ≤ n ∧ n ≤ 102 then some (n - 87)
  else if 65 ≤ n ∧ n ≤ 70 then some (n - 55)
  else none

/-- The number that `n` followed by digits spells, if it stays below `bound` all the way. -/
def digitsBelow (bound : Nat) : (n : Nat) → List Char → Except NumeralFlaw Nat
  | n, [] => .ok n
  | n, c :: rest =>
    if c.toNat < 48 ∨ 57 < c.toNat then .error .badDigit
    else
      let n := 10 * n + (c.toNat - 48)
      if n < bound then digitsBelow bound n rest else .error .tooLarge

/-- The number below `bound` that a text spells. -/
def numeralBelow (bound : Nat) (cs : List Char) : Except NumeralFlaw Nat :=
  let digits := match cs with
    | '+' :: rest => rest
    | cs => cs
  if digits.isEmpty then .error .badDigit else digitsBelow bound 0 digits

/-- The 64-bit integer that decimal digits after an optional sign spell. -/
def integer? (cs : List Char) : Option Int :=
  let (negative, digits) := match cs with
    | '-' :: rest => (true, rest)
    | '+' :: rest => (false, rest)
    | cs => (false, cs)
  if digits.isEmpty then none
  else
    match digitsBelow UInt64.size 0 digits with
    | .ok n =>
      let n : Int := if negative then -n else n
      if (Int64.ofInt n).toInt = n then some n else none
    | .error _ => none

/-- The flag that a text names. -/
def flag (cs : List Char) : Except NumeralFlaw Bool :=
  if cs = ['t', 'r', 'u', 'e'] then .ok true
  else if cs = ['f', 'a', 'l', 's', 'e'] then .ok false
  else .error .noFlag

end Lineage.Text

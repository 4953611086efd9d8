import Lineage.Json
import Lineage.Text.Numeral

/-!
# The words of JSON text

Strings and numbers, as they stand at the start of a text. A string holds no bare control character
and no half of a surrogate pair; a number has no leading zero. The digits of a number count as far
as they fit 64 bits.
-/

namespace Lineage.Json

/-- Blank, tab, line feed and carriage return. -/
def isBlank (c : Char) : Bool := c == ' ' || c == '\t' || c == '\n' || c == '\r'

/-- Drop leading blanks. -/
def skipBlanks (cs : List Char) : List Char := cs.dropWhile isBlank

/-- The value of a decimal digit. -/
def digit? (c : Char) : Option Nat :=
  if 48 ≤ c.toNat ∧ c.toNat ≤ 57 then some (c.toNat - 48) else none

/-! ## Strings -/

/-- Four hexadecimal digits. -/
def hex4? : List Char → Option (Nat × List Char)
  | a :: b :: c :: d :: rest => do
    let a ← Text.hexDigit? a
    let b ← Text.hexDigit? b
    let c ← Text.hexDigit? c
    let d ← Text.hexDigit? d
    some (((a * 16 + b) * 16 + c) * 16 + d, rest)
  | _ => none

/-- The character of a `\u` escape whose `\u` is read. Two escapes make up a character beyond the
first 65536; half of such a pair is refused. -/
def unicodeEscape? (cs : List Char) : Option (Char × List Char) := do
  let (high, rest) ← hex4? cs
  if 0xDC00 ≤ high ∧ high ≤ 0xDFFF then none
  else if 0xD800 ≤ high ∧ high ≤ 0xDBFF then
    match rest with
    | '\\' :: 'u' :: rest => do
      let (low, rest) ← hex4? rest
      if 0xDC00 ≤ low ∧ low ≤ 0xDFFF then
        some (Char.ofNat (0x10000 + (high - 0xD800) * 0x400 + (low - 0xDC00)), rest)
      else none
    | _ => none
  else some (Char.ofNat high, rest)

/-- The character of an escape whose backslash is read. -/
def escaped? : List Char → Option (Char × List Char)
  | '"' :: rest => some ('"', rest)
  | '\\' :: rest => some ('\\', rest)
  | '/' :: rest => some ('/', rest)
  | 'b' :: rest => some ('\x08', rest)
  | 'f' :: rest => some ('\x0c', rest)
  | 'n' :: rest => some ('\n', rest)
  | 'r' :: rest => some ('\r', rest)
  | 't' :: rest => some ('\t', rest)
  | 'u' :: rest => unicodeEscape? rest
  | _ => none

/-- The rest of a string whose opening quote is read, at most `fuel` characters. -/
def stringBody? : (fuel : Nat) → List Char → Option (List Char × List Char)
  | 0, _ => none
  | _ + 1, [] => none
  | _ + 1, '"' :: rest => some ([], rest)
  | fuel + 1, '\\' :: rest => do
    let (c, rest) ← escaped? rest
    let (cs, rest) ← stringBody? fuel rest
    some (c :: cs, rest)
  | fuel + 1, c :: rest =>
    if c.toNat < 32 then none
    else do
      let (cs, rest) ← stringBody? fuel rest
      some (c :: cs, rest)

/-! ## Numbers -/

/-- The leading decimal digits and what follows them. -/
def digits : List Char → List Nat × List Char
  | [] => ([], [])
  | c :: rest =>
    match digit? c with
    | some d => let (ds, rest) := digits rest; (d :: ds, rest)
    | none => ([], c :: rest)

/-- The number that decimal digits spell. -/
def ofDigits (ds : List Nat) : Nat := ds.foldl (fun n d => 10 * n + d) 0

/-- The digits before the point: a single zero, or digits that do not start with one. -/
def whole? (cs : List Char) : Option (List Nat × List Char) :=
  match digits cs with
  | ([], _) => none
  | (0 :: _ :: _, _) => none
  | (ds, rest) => some (ds, rest)

/-- The digits after a point, none without a point. -/
def fraction? : List Char → Option (List Nat × List Char)
  | '.' :: rest =>
    match digits rest with
    | ([], _) => none
    | (ds, rest) => some (ds, rest)
  | rest => some ([], rest)

/-- The exponent, or `none` inside without one. -/
def exponent? (cs : List Char) : Option (Option Int × List Char) :=
  match cs with
  | c :: rest =>
    if c = 'e' ∨ c = 'E' then
      let (negative, rest) :=
        match rest with
        | '+' :: rest => (false, rest)
        | '-' :: rest => (true, rest)
        | rest => (false, rest)
      match digits rest with
      | ([], _) => none
      | (ds, rest) =>
        let e : Int := ofDigits ds
        some (some (if negative then -e else e), rest)
    else some (none, cs)
  | [] => some (none, [])

/-- A number as it is spelled. -/
structure Numeral where
  negative : Bool
  whole : List Nat
  fraction : List Nat
  exponent : Option Int

/-- The numeral at the start of a text. -/
def numeral? (cs : List Char) : Option (Numeral × List Char) := do
  let (negative, cs) := match cs with
    | '-' :: rest => (true, rest)
    | rest => (false, rest)
  let (whole, cs) ← whole? cs
  let (fraction, cs) ← fraction? cs
  let (exponent, cs) ← exponent? cs
  some ({ negative, whole, fraction, exponent }, cs)

/-- The number that `n` followed by digits spells, up to the first digit with which it would not
fit 64 bits. That digit and those after it are left over. -/
def leadingDigits : (n : Nat) → List Nat → Nat × List Nat
  | n, [] => (n, [])
  | n, d :: ds =>
    if 10 * n + d < UInt64.size then leadingDigits (10 * n + d) ds else (n, d :: ds)

/-- The number that a numeral spells, or `none` beyond the largest binary fraction. Without a
fraction and an exponent it is an integer if it fits 64 bits, `-0` excepted. -/
def Numeral.number? (m : Numeral) : Option Number :=
  let magnitude := ofDigits m.whole
  let n : Int := if m.negative then -(magnitude : Int) else magnitude
  if m.fraction.isEmpty ∧ m.exponent.isNone ∧ fitsInteger n ∧ ¬(m.negative ∧ magnitude = 0) then
    some (.integer n)
  else
    let (n, dropped) := leadingDigits 0 m.whole
    let (n, ignored) := leadingDigits n m.fraction
    let taken := m.fraction.length - ignored.length
    let exponent : Int := m.exponent.getD 0 + dropped.length - taken
    (Binary64.ofDecimal? m.negative n exponent).map .binary

end Lineage.Json

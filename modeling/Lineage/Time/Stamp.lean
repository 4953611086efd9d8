import Lineage.Text.Blank
import Lineage.Time
import Lineage.Time.Calendar

/-!
# Time stamps

The text of an instant, as in `2024-02-29T23:59:59.123Z`. It is written in universal time, with
no, three, six or nine digits after the point, the fewest that lose nothing. It is read with any
offset, and loosely: blanks may stand between the parts, leading zeros may be missing, and a space
may stand for the `T`.
-/

namespace Lineage.Stamp

open Text Calendar

/-! ## Writing -/

/-- Decimal digits, padded with zeros to a width. -/
def padded (width n : Nat) : List Char :=
  let ds := n.repr.toList
  List.replicate (width - ds.length) '0' ++ ds

/-- A year: four digits, with a sign and at least four digits outside of 0 to 9999. -/
def yearChars (y : Int) : List Char :=
  if 0 ≤ y ∧ y ≤ 9999 then padded 4 y.toNat
  else (if y < 0 then '-' else '+') :: padded 4 y.natAbs

/-- The digits after the point, with the point. -/
def fractionChars (nanos : Nat) : List Char :=
  if nanos = 0 then []
  else if nanos % 1000000 = 0 then '.' :: padded 3 (nanos / 1000000)
  else if nanos % 1000 = 0 then '.' :: padded 6 (nanos / 1000)
  else '.' :: padded 9 nanos

/-- The text of an instant. -/
def chars (t : Instant) : List Char :=
  let date := ofDayNumber (t.second / 86400)
  let ofDay := (t.second % 86400).toNat
  let second := ofDay % 60 + (if t.leap then 1 else 0)
  yearChars date.year ++ '-' :: padded 2 date.month ++ '-' :: padded 2 date.day ++
    'T' :: padded 2 (ofDay / 3600) ++ ':' :: padded 2 (ofDay / 60 % 60) ++
    ':' :: padded 2 second ++ fractionChars (t.base % nanosPerSecond).toNat ++ ['Z']

/-- The text of an instant. -/
def text (t : Instant) : String := String.ofList (chars t)

/-! ## Reading -/

/-- Whether a character is a decimal digit. -/
def isDigit (c : Char) : Bool := 48 ≤ c.toNat && c.toNat ≤ 57

/-- The number that a list of digits spells. -/
def ofDigits (ds : List Char) : Nat := ds.foldl (fun n c => 10 * n + (c.toNat - 48)) 0

/-- One to `most` digits. -/
def number? (most : Nat) (cs : List Char) : Option (Nat × List Char) :=
  let ds := (cs.take most).takeWhile isDigit
  if ds.isEmpty then none else some (ofDigits ds, cs.drop ds.length)

/-- A number of one or two digits within bounds, after blanks. -/
def field? (low high : Nat) (cs : List Char) : Option (Nat × List Char) := do
  let (n, rest) ← number? 2 (trimStart cs)
  if low ≤ n ∧ n ≤ high then some (n, rest) else none

/-- A given character, after blanks. -/
def mark? (c : Char) (cs : List Char) : Option (List Char) :=
  match trimStart cs with
  | d :: rest => if d = c then some rest else none
  | [] => none

/-- A year of up to four digits, or of any number of digits after a sign; after blanks. -/
def year? (cs : List Char) : Option (Int × List Char) :=
  match trimStart cs with
  | '-' :: rest => (number? rest.length rest).map fun (n, rest) => (-(n : Int), rest)
  | '+' :: rest => (number? rest.length rest).map fun (n, rest) => ((n : Int), rest)
  | rest => (number? 4 rest).map fun (n, rest) => ((n : Int), rest)

/-- Nanoseconds after a point, digits beyond the ninth dropped; zero without a point. -/
def nanos? : List Char → Option (Nat × List Char)
  | '.' :: rest =>
    let ds := rest.takeWhile isDigit
    if ds.isEmpty then none
    else
      some (ofDigits ((ds ++ List.replicate 9 '0').take 9), rest.drop ds.length)
  | rest => some (0, rest)

/-- Two digits. -/
def pair? : List Char → Option (Nat × List Char)
  | a :: b :: rest => if isDigit a && isDigit b then some (ofDigits [a, b], rest) else none
  | _ => none

/-- Hours and minutes of an offset, in seconds. -/
def hoursMinutes? (cs : List Char) : Option (Int × List Char) := do
  let (hours, rest) ← pair? cs
  let (minutes, rest) ← pair? (rest.dropWhile fun c => c = ':' || isBlank c)
  if 59 < minutes then none else some (((hours * 60 + minutes) * 60 : Nat), rest)

/-- An offset from universal time, in seconds: `Z`, `UTC`, or a sign with hours and minutes. -/
def offset? (cs : List Char) : Option (Int × List Char) :=
  match cs with
  | 'Z' :: rest | 'z' :: rest => some (0, rest)
  | '+' :: rest => hoursMinutes? rest
  | '-' :: rest | '−' :: rest => (hoursMinutes? rest).map fun (s, rest) => (-s, rest)
  | a :: b :: c :: rest =>
    if [a, b, c].map Char.toUpper = ['U', 'T', 'C'] then some (0, rest) else none
  | _ => none

/-- The `T` or the blank between date and time. -/
def separator? : List Char → Option (List Char)
  | 'T' :: rest | 't' :: rest | ' ' :: rest => some rest
  | _ => none

/-- The instant that a text spells. -/
def read? (s : String) : Option Instant := do
  let (year, cs) ← year? s.toList
  let (month, cs) ← mark? '-' cs >>= field? 1 12
  let (day, cs) ← mark? '-' cs >>= field? 1 31
  let (hour, cs) ← separator? cs >>= field? 0 23
  let (minute, cs) ← mark? ':' cs >>= field? 0 59
  let (second, cs) ← mark? ':' cs >>= field? 0 60
  let (fraction, cs) ← nanos? cs
  let (offset, cs) ← offset? (trimStart cs)
  let date : Date := ⟨year, month, day⟩
  if ¬ date.isValid ∨ year < -262143 ∨ 262142 < year ∨ 86400 ≤ offset ∨ offset ≤ -86400 ∨
      ¬ (trimStart cs).isEmpty then none
  else
    let seconds := dayNumber date * 86400 + ((hour * 60 + minute) * 60 : Nat) +
      (min second 59 : Nat) - offset
    let nanos := seconds * nanosPerSecond + fraction
    if nanos < Instant.first ∨ Instant.last < nanos then none
    else if second = 60 then some ⟨nanos + nanosPerSecond, true⟩
    else some ⟨nanos, false⟩

end Lineage.Stamp

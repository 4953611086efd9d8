import Lineage.Text.Numeral

/-!
# Hosts

A host is a name or, in brackets, a number of 128 bits: eight groups of up to four hexadecimal
digits between colons. Two colons in a row stand for at least one group of zeros, and the last two
groups may be written as four decimal bytes between points.
-/

namespace Lineage.Address

/-- Who is addressed. -/
inductive Host
  | name (cs : List Char)
  /-- A number in brackets. -/
  | number (groups : List Char)
  deriving DecidableEq, Repr

/-- The parts of a text between the separators. -/
def split (separator : Char) : List Char → List (List Char)
  | [] => [[]]
  | c :: rest =>
    if c = separator then [] :: split separator rest
    else
      match split separator rest with
      | first :: others => (c :: first) :: others
      | [] => [[c]]

/-- What stands before and after the first two colons in a row. -/
def cutGap : List Char → Option (List Char × List Char)
  | ':' :: ':' :: rest => some ([], rest)
  | c :: rest => (cutGap rest).map fun cut => (c :: cut.1, cut.2)
  | [] => none

/-- One to four hexadecimal digits. -/
def isGroup (cs : List Char) : Bool :=
  1 ≤ cs.length && cs.length ≤ 4 && cs.all fun c => (Text.hexDigit? c).isSome

/-- A decimal number below 256 without leading zeros. -/
def isByte (cs : List Char) : Bool :=
  (cs.length = 1 || cs.head? != some '0') && !cs.isEmpty &&
    match Text.digitsBelow UInt8.size 0 cs with
    | .ok _ => true
    | .error _ => false

/-- Four bytes between points. -/
def isQuad (cs : List Char) : Bool :=
  let parts := split '.' cs
  parts.length = 4 && parts.all isByte

/-- The number of groups between colons, of which the last two may be four bytes. -/
def groups? (quads : Bool) (cs : List Char) : Option Nat :=
  if cs.isEmpty then some 0
  else
    let parts := split ':' cs
    match parts.getLast? with
    | some last =>
      if !parts.dropLast.all isGroup then none
      else if isGroup last then some parts.length
      else if quads && isQuad last then some (parts.length + 1)
      else none
    | none => none

/-- Whether a text spells a number of 128 bits. -/
def isNumber (cs : List Char) : Bool :=
  match cutGap cs with
  | some (front, back) =>
    match groups? false front, groups? true back with
    | some m, some n => m + n ≤ 7
    | _, _ => false
  | none => groups? true cs = some 8

/-- Characters that no name contains. -/
def forbiddenInName : List Char :=
  ['\x00', '\t', '\n', '\r', ' ', '#', '/', ':', '<', '>', '?', '@', '[', '\\', ']', '^', '|']

/-- The host that a text spells, which is not empty. -/
def Host.read? : List Char → Option Host
  | '[' :: rest =>
    if rest.getLast? = some ']' && isNumber rest.dropLast then some (number rest.dropLast) else none
  | cs => if cs.any forbiddenInName.contains then none else some (name cs)

end Lineage.Address

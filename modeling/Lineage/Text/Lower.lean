import Lineage.Text.CaseTable

/-!
# Lowercase text

`Text.lower` maps every character to its lowercase partner. Two characters need more than a table
of partners: the dotted capital I becomes two characters, and a capital sigma becomes a final
sigma at the end of a word, an ordinary one elsewhere.
-/

namespace Lineage.Text

/-- Whether a code point lies in one of the ranges. -/
def inRanges (ranges : List (Nat × Nat)) (n : Nat) : Bool :=
  ranges.any fun r => r.1 ≤ n && n ≤ r.2

/-- Letters with case. -/
def isCased (c : Char) : Bool := inRanges casedRanges c.toNat

/-- Characters that do not end a word for the final sigma. -/
def isCaseIgnorable (c : Char) : Bool := inRanges caseIgnorableRanges c.toNat

/-- Whether a run holds the code point `n`. -/
def CaseRun.holds (r : CaseRun) (n : Nat) : Bool :=
  r.first ≤ n && n ≤ r.last && (n - r.first) % r.step == 0

/-- The lowercase form of a character that stands alone. -/
def lowerChar (c : Char) : List Char :=
  if c.toNat < 128 then [c.toLower]
  else if c.toNat = 0x130 then ['i', Char.ofNat 0x307]
  else
    match lowercaseRuns.find? (·.holds c.toNat) with
    | some r => [Char.ofNat ((c.toNat : Int) + r.shift).toNat]
    | none => [c]

/-- Whether the first character that is not skipped is cased. -/
def meetsCased (cs : List Char) : Bool :=
  match cs.dropWhile isCaseIgnorable with
  | c :: _ => isCased c
  | [] => false

/-- The lowercase form of `after`, which follows the characters of `before`, nearest first. -/
def lowerFrom (before : List Char) : (after : List Char) → List Char
  | [] => []
  | c :: rest =>
    if c = 'Σ' then
      let sigma := if meetsCased before && !meetsCased rest then 'ς' else 'σ'
      sigma :: lowerFrom (c :: before) rest
    else lowerChar c ++ lowerFrom (c :: before) rest

/-- The lowercase form of a text. -/
def lower (cs : List Char) : List Char := lowerFrom [] cs

/-- ASCII letters in lowercase, every other character as it is. -/
def lowerAscii (cs : List Char) : List Char := cs.map Char.toLower

/-- Whether `needle` stands somewhere in `hay` without a gap. -/
def contains (hay needle : List Char) : Bool :=
  needle.isPrefixOf hay ||
    match hay with
    | [] => false
    | _ :: rest => contains rest needle

end Lineage.Text

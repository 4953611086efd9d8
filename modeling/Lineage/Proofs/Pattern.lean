import Mathlib.Data.List.Forall2
import Mathlib.Data.List.Infix
import Lineage.Sql.Statement

/-!
# What a pattern finds

A server reads a pattern as a row of elements and tries every way to lay them over the whole text.
Which characters are the same is the server's matter: capital and small letters may be.

* `Pattern.parse?`, `Pattern.fits`, `Pattern.like?`: how a server answers.
* `Pattern.foldl_escape`: escaping marks one after the other is escaping each character once, as
  the backslash is the first of them.
* `Pattern.fits_literals`, `Pattern.fits_anyText`: what is left of a text behind some elements.
* `piece_like`: the pattern for a piece is read, and finds the texts in which the piece occurs.
-/

namespace Lineage.Sql

namespace Pattern

/-- What a part of a pattern stands for. -/
inductive Element
  | anyText
  | anyChar
  | only (c : Char)
  deriving DecidableEq, Repr

open Element

/-- The elements of a pattern. There are none if its last backslash has nothing to escape. -/
def parse? : List Char → Option (List Element)
  | [] => some []
  | ['\\'] => none
  | '\\' :: c :: rest => (parse? rest).map (only c :: ·)
  | '%' :: rest => (parse? rest).map (anyText :: ·)
  | '_' :: rest => (parse? rest).map (anyChar :: ·)
  | c :: rest => (parse? rest).map (only c :: ·)

/-- Whether elements can be laid over a text. -/
def fits (same : Char → Char → Bool) : List Element → List Char → Bool
  | [], text => text.isEmpty
  | anyText :: rest, text => text.tails.any (fits same rest)
  | anyChar :: rest, _ :: text => fits same rest text
  | only d :: rest, c :: text => same d c && fits same rest text
  | _ :: _, [] => false

/-- Whether a text is like a pattern. A server refuses a pattern without elements. -/
def like? (same : Char → Char → Bool) (pattern text : String) : Option Bool :=
  (parse? pattern.toList).map (fits same · text.toList)

variable {same : Char → Char → Bool} {marks : List Char} {mark c : Char}
variable {piece rest text : List Char} {elements : List Element}

/-! ## Escaped characters -/

/-- A character, behind a backslash if it is one of the marks. -/
def escaped (marks : List Char) (c : Char) : List Char := if c ∈ marks then ['\\', c] else [c]

/-- A mark other than the backslash is not found in what was put before the earlier ones. -/
theorem escape_flatMap_escaped (hmark : mark ≠ '\\') (hnew : mark ∉ marks) (cs : List Char) :
    escape mark (cs.flatMap (escaped marks)) = cs.flatMap (escaped (mark :: marks)) := by
  rw [escape, List.flatMap_assoc]
  congr 1
  funext c
  by_cases hc : c ∈ marks
  · have hne : c ≠ mark := fun h => hnew (h ▸ hc)
    simp [escaped, hc, hne, hmark.symm]
  · simp [escaped, hc]

theorem foldl_escape (cs : List Char) :
    Pattern.marks.foldl (fun cs mark => escape mark cs) cs =
      cs.flatMap (escaped ['_', '%', '\\']) := by
  have hfirst : escape '\\' cs = cs.flatMap (escaped ['\\']) :=
    congrArg (cs.flatMap ·) (funext fun c => by simp only [escaped, List.mem_singleton])
  simp only [Pattern.marks, List.foldl_cons, List.foldl_nil]
  rw [hfirst, escape_flatMap_escaped (by decide) (by decide),
    escape_flatMap_escaped (by decide) (by decide)]

theorem parse?_of_notMem (hc : c ∉ ['_', '%', '\\']) :
    parse? (c :: rest) = (parse? rest).map (only c :: ·) := by
  simp only [List.mem_cons, List.not_mem_nil, or_false, not_or] at hc
  obtain ⟨hunderscore, hpercent, hbackslash⟩ := hc
  rw [parse?]
  · exact fun h => absurd h hbackslash
  · exact fun _ _ h => absurd h hbackslash
  · exact hpercent
  · exact hunderscore

/-- An escaped character is read as itself. -/
theorem parse?_escaped (c : Char) (rest : List Char) :
    parse? (escaped ['_', '%', '\\'] c ++ rest) = (parse? rest).map (only c :: ·) := by
  by_cases hc : c ∈ ['_', '%', '\\']
  · rw [escaped, if_pos hc]
    rfl
  · rw [escaped, if_neg hc, List.singleton_append, parse?_of_notMem hc]

theorem parse?_flatMap_escaped (piece rest : List Char) :
    parse? (piece.flatMap (escaped ['_', '%', '\\']) ++ rest) =
      (parse? rest).map (piece.map only ++ ·) := by
  induction piece with
  | nil => simp
  | cons c piece ih =>
    rw [List.flatMap_cons, List.append_assoc, parse?_escaped, ih, Option.map_map]
    rfl

/-- The pattern for a piece is its characters between two arbitrary texts. -/
theorem parse?_containing (piece : String) :
    parse? (containing piece).toList = some (anyText :: (piece.toList.map only ++ [anyText])) := by
  rw [containing, String.toList_ofList, foldl_escape]
  have htail := parse?_flatMap_escaped piece.toList ['%']
  rw [show parse? ['%'] = some [anyText] from rfl, Option.map_some] at htail
  rw [parse?, htail, Option.map_some]

/-! ## Elements over a text -/

theorem fits_anyText :
    fits same (anyText :: elements) text = true ↔ ∃ skipped rest, text = skipped ++ rest ∧
      fits same elements rest = true := by
  rw [fits, List.any_eq_true]
  constructor
  · rintro ⟨rest, hrest, hfits⟩
    obtain ⟨skipped, rfl⟩ := (List.mem_tails _ _).1 hrest
    exact ⟨skipped, rest, rfl, hfits⟩
  · rintro ⟨skipped, rest, rfl, hfits⟩
    exact ⟨rest, (List.mem_tails _ _).2 (List.suffix_append ..), hfits⟩

theorem fits_literals :
    fits same (piece.map only ++ elements) text = true ↔ ∃ part rest, text = part ++ rest ∧
      List.Forall₂ (same · · = true) piece part ∧ fits same elements rest = true := by
  induction piece generalizing text with
  | nil => simp
  | cons d piece ih =>
    cases text with
    | nil => simp [fits]
    | cons c text =>
      rw [List.map_cons, List.cons_append, fits, Bool.and_eq_true, ih]
      constructor
      · rintro ⟨hsame, part, rest, rfl, hpart, hrest⟩
        exact ⟨c :: part, rest, rfl, .cons hsame hpart, hrest⟩
      · rintro ⟨_, rest, htext, hpart, hrest⟩
        cases hpart with
        | cons hsame hpart =>
          obtain ⟨rfl, rfl⟩ := List.cons.inj htext
          exact ⟨hsame, _, rest, rfl, hpart, hrest⟩

/-- Characters between two arbitrary texts are laid over a part of the text. -/
theorem fits_amid :
    fits same (anyText :: (piece.map only ++ [anyText])) text = true ↔
      ∃ part, part <:+: text ∧ List.Forall₂ (same · · = true) piece part := by
  have hany (rest : List Char) : fits same [anyText] rest = true :=
    fits_anyText.2 ⟨rest, [], (List.append_nil rest).symm, rfl⟩
  rw [fits_anyText]
  constructor
  · rintro ⟨skipped, _, rfl, hrest⟩
    obtain ⟨part, rest, rfl, hpart, -⟩ := fits_literals.1 hrest
    exact ⟨part, ⟨skipped, rest, List.append_assoc ..⟩, hpart⟩
  · rintro ⟨part, ⟨skipped, rest, rfl⟩, hpart⟩
    have hrest : fits same (piece.map only ++ [anyText]) (part ++ rest) = true :=
      fits_literals.2 ⟨part, rest, rfl, hpart, hany rest⟩
    exact ⟨skipped, part ++ rest, List.append_assoc .., hrest⟩

end Pattern

/-- What is sent for a piece is a pattern that the server does not refuse. A text is like it iff
the piece occurs in the text, or rather, if the server takes other characters to be the same, some
part of the text that is the same as the piece. -/
theorem piece_like (needle : String) : ∃ pattern, piece (some needle) = .text pattern ∧
    (∀ hay : String, Pattern.like? (· == ·) pattern hay =
      some (decide (needle.toList <:+: hay.toList))) ∧
    ∀ (same : Char → Char → Bool) (hay : String), ∃ answer,
      Pattern.like? same pattern hay = some answer ∧
        (answer = true ↔ ∃ part, part <:+: hay.toList ∧
          List.Forall₂ (same · · = true) needle.toList part) := by
  have hlike (same : Char → Char → Bool) (hay : String) :
      Pattern.like? same (Pattern.containing needle) hay = some (Pattern.fits same
        (.anyText :: (needle.toList.map .only ++ [.anyText])) hay.toList) := by
    rw [Pattern.like?, Pattern.parse?_containing, Option.map_some]
  refine ⟨_, rfl, fun hay => ?exact, fun same hay => ⟨_, hlike same hay, Pattern.fits_amid⟩⟩
  rw [hlike, Option.some.injEq, Bool.eq_iff_iff, Pattern.fits_amid, decide_eq_true_eq]
  simp [List.forall₂_eq_eq_eq]

example : Pattern.like? (· == ·) (Pattern.containing "5%") "a 5% rate" = some true ∧
    Pattern.like? (· == ·) (Pattern.containing "5%") "a 50 rate" = some false ∧
    Pattern.like? (· == ·) "%5\\" "a 5" = none := by
  decide +kernel

end Lineage.Sql

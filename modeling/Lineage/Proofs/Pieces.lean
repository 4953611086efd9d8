import Mathlib.Data.List.Infix
import Lineage.Node

/-!
# Searching for a piece of a text

A filter finds a text in the code or the name of a node if it occurs there once both are in
lowercase. Every character has a lowercase form of its own but the capital sigma, whose form depends
on what stands around it. Cut out of a text, a piece loses what stood around it: a sigma may be
final in the piece and was not in the text, or the other way round.

* `Text.contains_iff`: to occur is to be an infix.
* `Text.lowerAmid`: the lowercase form of a piece where it stands; `Text.lower_append` puts a text
  together from such forms.
* `Text.SpelledAlike`: every capital sigma of a piece has the same form in the text as in the piece
  alone. Then, and only then, the piece stands in the lowercase text at its own place
  (`Text.lowerAmid_eq_lower_iff`).
* `NodeFilter.accepts_piece`: what that means for filters.
-/

namespace Lineage

namespace Text

variable {before before' piece after after' pre post hay needle : List Char} {c : Char}

theorem contains_iff : contains hay needle = true ↔ needle <:+: hay := by
  induction hay with
  | nil => simp [contains, List.isPrefixOf_iff_prefix]
  | cons c rest ih =>
    rw [contains, Bool.or_eq_true, List.isPrefixOf_iff_prefix, List.infix_cons_iff]
    exact or_congr_right ih

/-! ## Pieces amid other characters -/

/-- Whether a sigma is final: it ends a word and does not make one up alone. Of the characters
before it the nearest comes first. -/
def isFinal (before after : List Char) : Bool := meetsCased before && !meetsCased after

/-- The lowercase form of a capital sigma. -/
def sigmaAmid (before after : List Char) : Char := if isFinal before after then 'ς' else 'σ'

/-- The lowercase form of a piece amid other characters, of which those before it come nearest
first. -/
def lowerAmid (before : List Char) : (piece after : List Char) → List Char
  | [], _ => []
  | c :: rest, after =>
    (if c = 'Σ' then [sigmaAmid before (rest ++ after)] else lowerChar c) ++
      lowerAmid (c :: before) rest after

theorem lowerFrom_append (before piece after : List Char) :
    lowerFrom before (piece ++ after) =
      lowerAmid before piece after ++ lowerFrom (piece.reverse ++ before) after := by
  induction piece generalizing before with
  | nil => rfl
  | cons c rest ih =>
    rw [List.cons_append, lowerFrom, lowerAmid, ih]
    split <;> simp [sigmaAmid, isFinal]

theorem lowerAmid_nil (before piece : List Char) :
    lowerAmid before piece [] = lowerFrom before piece := by
  have h := lowerFrom_append before piece []
  rw [List.append_nil] at h
  exact (h.trans (List.append_nil _)).symm

/-- A text in lowercase is put together from the forms of its pieces. -/
theorem lower_append (pre piece post : List Char) : lower (pre ++ piece ++ post) =
    lowerAmid [] pre (piece ++ post) ++ lowerAmid pre.reverse piece post ++
      lowerAmid (piece.reverse ++ pre.reverse) post [] := by
  rw [List.append_assoc, lower, lowerFrom_append, lowerFrom_append, List.append_nil,
    List.append_assoc, lowerAmid_nil]

/-! ## Sigmas apart -/

/-- A final sigma as an ordinary one. -/
def unsigma (c : Char) : Char := if c = 'ς' then 'σ' else c

theorem unsigma_sigmaAmid (before after : List Char) : unsigma (sigmaAmid before after) = 'σ' := by
  unfold sigmaAmid
  split <;> rfl

/-- But for its sigmas a piece has one form wherever it stands. -/
theorem map_unsigma_lowerAmid (before before' piece after after' : List Char) :
    (lowerAmid before piece after).map unsigma = (lowerAmid before' piece after').map unsigma := by
  induction piece generalizing before before' with
  | nil => rfl
  | cons c rest ih =>
    rw [lowerAmid, lowerAmid, List.map_append, List.map_append, ih (c :: before) (c :: before')]
    split
    case isTrue => simp [unsigma_sigmaAmid]
    case isFalse => rfl

theorem sigmaAmid_inj :
    sigmaAmid before after = sigmaAmid before' after' ↔
      isFinal before after = isFinal before' after' := by
  unfold sigmaAmid
  cases isFinal before after <;> cases isFinal before' after' <;> decide

/-- A sigma of a text is its first character or one of the others. -/
theorem forall_sigma_cons {p : List Char → List Char → Prop} {rest : List Char} :
    (∀ x y, c :: rest = x ++ 'Σ' :: y → p x y) ↔
      (c = 'Σ' → p [] rest) ∧ ∀ x y, rest = x ++ 'Σ' :: y → p (c :: x) y := by
  constructor
  · exact fun h => ⟨fun hc => h [] rest (hc ▸ rfl), fun x y hrest => h (c :: x) y (hrest ▸ rfl)⟩
  · rintro ⟨hfirst, hrest⟩ (_ | ⟨d, x⟩) y h
    · obtain ⟨hc, rfl⟩ := List.cons.inj h
      exact hfirst hc
    · obtain ⟨rfl, hx⟩ := List.cons.inj h
      exact hrest x y hx

/-- A piece has one form in two places iff each of its sigmas has. -/
theorem lowerAmid_inj : lowerAmid before piece after = lowerAmid before' piece after' ↔
    ∀ x y, piece = x ++ 'Σ' :: y →
      isFinal (x.reverse ++ before) (y ++ after) =
        isFinal (x.reverse ++ before') (y ++ after') := by
  induction piece generalizing before before' with
  | nil => simp [lowerAmid]
  | cons c rest ih =>
    rw [forall_sigma_cons, lowerAmid, lowerAmid]
    simp only [List.reverse_cons, List.append_assoc, List.singleton_append, ← ih]
    split
    case isTrue hc => simp [hc, sigmaAmid_inj]
    case isFalse hc => simp [hc]

/-- Every capital sigma of a piece has the same form in the text as in the piece alone. -/
def SpelledAlike (pre piece post : List Char) : Prop :=
  ∀ x y, piece = x ++ 'Σ' :: y →
    isFinal (x.reverse ++ pre.reverse) (y ++ post) = isFinal x.reverse y

theorem lowerAmid_eq_lower_iff :
    lowerAmid pre.reverse piece post = lower piece ↔ SpelledAlike pre piece post := by
  rw [lower, ← lowerAmid_nil, lowerAmid_inj]
  simp only [List.append_nil]
  rfl

/-! ## Searches -/

/-- What a search answers for a piece of a text: whether the lowercase piece occurs in the lowercase
text. What stands there in the place of the piece is the lowercase piece but for the forms of its
sigmas, and is just that piece iff these are spelled alike. -/
structure Finds (text pre piece post : List Char) (answer : Bool) : Prop where
  found_iff : answer = true ↔ lower piece <:+: lower text
  text_eq : lower text =
    lowerAmid [] pre (piece ++ post) ++ lowerAmid pre.reverse piece post ++
      lowerAmid (piece.reverse ++ pre.reverse) post []
  nearly : (lowerAmid pre.reverse piece post).map unsigma = (lower piece).map unsigma
  exactly : lowerAmid pre.reverse piece post = lower piece ↔ SpelledAlike pre piece post
  found : SpelledAlike pre piece post → answer = true

theorem finds_contains (pre piece post : List Char) : Finds (pre ++ piece ++ post) pre piece post
    (contains (lower (pre ++ piece ++ post)) (lower piece)) where
  found_iff := contains_iff
  text_eq := lower_append pre piece post
  nearly := by
    rw [lower, ← lowerAmid_nil]
    exact map_unsigma_lowerAmid ..
  exactly := lowerAmid_eq_lower_iff
  found h := by
    rw [contains_iff, lower_append, lowerAmid_eq_lower_iff.2 h]
    exact List.infix_append ..

end Text

namespace NodeFilter

variable {k : Kind}

/-- A filter for a piece of the code, or of the name, finds the node if the capital sigmas of the
piece are spelled in the whole as in the piece alone. In any case what stands in the piece's place
differs from it at most in the forms of sigmas. -/
theorem accepts_piece (n : Node k) (piece : String) (pre post : List Char) :
    (n.code.toList = pre ++ piece.toList ++ post →
      Text.Finds n.code.toList pre piece.toList post (accepts { code := some piece } n)) ∧
    (n.name.toList = pre ++ piece.toList ++ post →
      Text.Finds n.name.toList pre piece.toList post (accepts { name := some piece } n)) := by
  constructor
  · intro h
    have hfound := Text.finds_contains pre piece.toList post
    rw [← h] at hfound
    simpa [accepts, occurs] using hfound
  · intro h
    have hfound := Text.finds_contains pre piece.toList post
    rw [← h] at hfound
    simpa [accepts, occurs] using hfound

/-- A node whose code and name are one text. -/
def labelled (text : String) : Node ⟨"tag"⟩ := { id := ⟨1⟩, code := text, name := text }

/-- The sigma ends a word in the code and in the piece. -/
theorem accepts_piece_street :
    (labelled "ΟΔΟΣ 7").code.toList = "ΟΔ".toList ++ "ΟΣ".toList ++ " 7".toList ∧
      accepts { code := some "ΟΣ" } (labelled "ΟΔΟΣ 7") = true ∧
      accepts { name := some "ΟΣ" } (labelled "ΟΔΟΣ 7") = true := by
  have hplace : "ΟΔΟΣ 7".toList = "ΟΔ".toList ++ "ΟΣ".toList ++ " 7".toList := by decide +kernel
  have halike : Text.SpelledAlike "ΟΔ".toList "ΟΣ".toList " 7".toList :=
    Text.lowerAmid_eq_lower_iff.1 (by decide +kernel)
  obtain ⟨hcode, hname⟩ := accepts_piece (labelled "ΟΔΟΣ 7") "ΟΣ" "ΟΔ".toList " 7".toList
  exact ⟨hplace, (hcode hplace).found halike, (hname hplace).found halike⟩

/-- The sigma ends the piece, but no word of the code. -/
theorem piece_missed :
    (labelled "ΟΔΟΣ.READ").code.toList = [] ++ "ΟΔΟΣ".toList ++ ".READ".toList ∧
      accepts { code := some "ΟΔΟΣ" } (labelled "ΟΔΟΣ.READ") = false ∧
      accepts { name := some "ΟΔΟΣ" } (labelled "ΟΔΟΣ.READ") = false := by
  decide +kernel

end NodeFilter

end Lineage

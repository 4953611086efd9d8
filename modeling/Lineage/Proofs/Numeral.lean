import Lineage.Text.Blank
import Lineage.Text.Numeral

/-!
# Numbers are read back from their digits

* `Text.digitsBelow_eq`: what digits spell, if it stays below the bound.
* `Text.numeralBelow_repr`: the decimal digits of a number are read as the number.
* `Text.trim_repr`: they have no blanks around them.
-/

namespace Lineage.Text

variable {bound n : Nat} {c : Char} {cs : List Char}

theorem toNat_of_isDigit (h : c.isDigit = true) : 48 ≤ c.toNat ∧ c.toNat ≤ 57 := by
  rw [Char.isDigit, Bool.and_eq_true, decide_eq_true_eq, decide_eq_true_eq] at h
  exact h

theorem le_ofDigitChars (n : Nat) (cs : List Char) : n ≤ Nat.ofDigitChars 10 cs n := by
  induction cs generalizing n with
  | nil => exact Nat.le_refl n
  | cons c rest ih =>
    rw [Nat.ofDigitChars_cons]
    have := ih (10 * n + (c.toNat - '0'.toNat))
    omega

/-- Digits after a number are read as what they spell with it. -/
theorem digitsBelow_eq (hcs : ∀ c ∈ cs, c.isDigit = true)
    (h : Nat.ofDigitChars 10 cs n < bound) :
    digitsBelow bound n cs = .ok (Nat.ofDigitChars 10 cs n) := by
  induction cs generalizing n with
  | nil => rfl
  | cons c rest ih =>
    rw [Nat.ofDigitChars_cons] at h ⊢
    obtain ⟨hlo, hhi⟩ := toNat_of_isDigit (hcs c List.mem_cons_self)
    have hlt := Nat.lt_of_le_of_lt (le_ofDigitChars _ rest) h
    rw [digitsBelow, if_neg (by omega)]
    refine (if_pos hlt).trans ?_
    exact ih (fun c hc => hcs c (List.mem_cons_of_mem _ hc)) h

theorem isDigit_of_mem_repr (h : c ∈ n.repr.toList) : c.isDigit = true := by
  rw [Nat.repr_eq_ofList_toDigits, String.toList_ofList] at h
  exact Nat.isDigit_of_mem_toDigits (by decide) (by decide) h

theorem repr_ne_nil (n : Nat) : n.repr.toList ≠ [] := by
  rw [Nat.repr_eq_ofList_toDigits, String.toList_ofList]
  exact Nat.toDigits_ne_nil

theorem ofDigitChars_repr (n : Nat) : Nat.ofDigitChars 10 n.repr.toList 0 = n := by
  rw [Nat.repr_eq_ofList_toDigits, String.toList_ofList, Nat.ofDigitChars_ten_toDigits]

/-- The digits of a number below the bound are read as the number. -/
theorem numeralBelow_repr (h : n < bound) : numeralBelow bound n.repr.toList = .ok n := by
  have hspell := ofDigitChars_repr n
  have hdigits : ∀ c ∈ n.repr.toList, c.isDigit = true := fun c => isDigit_of_mem_repr
  have hread := digitsBelow_eq hdigits (by rwa [hspell] : _ < bound)
  rw [hspell] at hread
  revert hread hdigits
  cases hcs : n.repr.toList with
  | nil => exact absurd hcs (repr_ne_nil n)
  | cons c rest =>
    intro hdigits hread
    have hc : c ≠ '+' := by
      rintro rfl
      exact absurd (hdigits '+' List.mem_cons_self) (by decide)
    unfold numeralBelow
    split
    case h_1 heq => exact absurd (List.cons.inj heq).1 hc
    case h_2 => rw [if_neg (by simp), hread]

theorem isBlank_of_isDigit (h : c.isDigit = true) : isBlank c = false := by
  obtain ⟨hlo, hhi⟩ := toNat_of_isDigit h
  simp [isBlank]
  omega

theorem trimStart_of_isBlank (h : ∀ c ∈ cs, isBlank c = false) : trimStart cs = cs := by
  cases cs with
  | nil => rfl
  | cons c rest => rw [trimStart, List.dropWhile_cons, h c List.mem_cons_self, if_neg (by simp)]

theorem trim_repr (n : Nat) : trim n.repr.toList = n.repr.toList := by
  have hblank : ∀ c ∈ n.repr.toList, isBlank c = false :=
    fun c hc => isBlank_of_isDigit (isDigit_of_mem_repr hc)
  rw [trim, trimStart_of_isBlank hblank,
    trimStart_of_isBlank fun c hc => hblank c (List.mem_reverse.1 hc), List.reverse_reverse]

theorem isBlankText_repr (n : Nat) : isBlankText n.repr = false := by
  obtain ⟨c, hc⟩ := List.exists_mem_of_ne_nil _ (repr_ne_nil n)
  rw [isBlankText, List.all_eq_false]
  exact ⟨c, hc, by simp [isBlank_of_isDigit (isDigit_of_mem_repr hc)]⟩

end Lineage.Text

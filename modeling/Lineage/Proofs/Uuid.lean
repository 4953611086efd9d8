import Mathlib.Tactic.Ring
import Lineage.Uuid

/-!
# Identifiers are read back from their digits

* `foldlM_digits`: the digits of a number after a number.
* `hyphenated?_groups`: the five groups of the written form.
* `read?_text`: the written form of an identifier is read back as the identifier.
-/

namespace Lineage.Uuid

theorem hexDigit?_digit : ∀ n < 16, Text.hexDigit? (digit n) = some n := by decide

theorem length_digits (count n : Nat) : (digits count n).length = count := by
  induction count generalizing n with
  | zero => rfl
  | succ count ih => rw [digits, List.length_append, ih, List.length_singleton]

/-- Digits read after a number shift it and fill in the digits of their own number. -/
theorem foldlM_digits (count n acc : Nat) :
    (digits count n).foldlM (fun m c => (Text.hexDigit? c).map fun d => 16 * m + d) acc =
      some (acc * 16 ^ count + n % 16 ^ count) := by
  induction count generalizing n with
  | zero => simp [digits, Nat.mod_one]
  | succ count ih =>
    have hlast := hexDigit?_digit (n % 16) (Nat.mod_lt n (by decide))
    have hsplit : n % 16 ^ (count + 1) = n % 16 + 16 * (n / 16 % 16 ^ count) := by
      rw [Nat.pow_succ', Nat.mod_mul]
    rw [digits, List.foldlM_append, ih]
    simp only [Option.bind_eq_bind, Option.bind_some, List.foldlM_cons, List.foldlM_nil, hlast,
      Option.map_some, Option.pure_def, hsplit]
    congr 1
    ring

/-- The groups of the written form, put together. -/
theorem hyphenated?_groups {a b c d e : List Char} (ha : a.length = 8) (hb : b.length = 4)
    (hc : c.length = 4) (hd : d.length = 4) (he : e.length = 12) :
    hyphenated? (a ++ '-' :: (b ++ '-' :: (c ++ '-' :: (d ++ '-' :: e)))) =
      simple? (a ++ b ++ c ++ d ++ e) := by
  unfold hyphenated?
  rw [if_pos]
  · simp [ha, hb, hc, hd, List.drop_append, List.drop_eq_nil_of_le]
  · simp [ha, hb, hc, hd, he, List.getElem?_append]

/-- What 32 digits in five groups spell. -/
theorem number?_groups {n : Nat} (hn : n < 2 ^ 128) :
    number? (digits 8 (n >>> 96) ++ digits 4 (n >>> 80) ++ digits 4 (n >>> 64) ++
      digits 4 (n >>> 48) ++ digits 12 n) = some n := by
  simp only [number?, List.foldlM_append, foldlM_digits, Option.bind_eq_bind, Option.bind_some,
    Nat.shiftRight_eq_div_pow]
  congr 1
  omega

/-- The written form of an identifier is read back. -/
theorem read?_text (u : Uuid) : read? u.text = some u := by
  have hsimple : simple? (digits 8 (u.bits.toNat >>> 96) ++ digits 4 (u.bits.toNat >>> 80) ++
      digits 4 (u.bits.toNat >>> 64) ++ digits 4 (u.bits.toNat >>> 48) ++
      digits 12 u.bits.toNat) = some u := by
    rw [simple?, if_pos (by simp [length_digits]), number?_groups u.bits.isLt, Option.map_some,
      ofNat, BitVec.ofNat_toNat, BitVec.setWidth_eq]
  have hchars : u.chars = digits 8 (u.bits.toNat >>> 96) ++
      '-' :: (digits 4 (u.bits.toNat >>> 80) ++ '-' :: (digits 4 (u.bits.toNat >>> 64) ++
      '-' :: (digits 4 (u.bits.toNat >>> 48) ++ '-' :: digits 12 u.bits.toNat))) := by
    simp [chars]
  have hlength : u.chars.length = 36 := by simp [hchars, length_digits]
  -- Of the four written forms only the one with hyphens has this length.
  unfold read?
  simp only [text, String.toList_ofList, hlength]
  rw [if_neg (by decide), if_neg (by simp), if_neg (by simp), hchars,
    hyphenated?_groups (length_digits 8 _) (length_digits 4 _) (length_digits 4 _)
      (length_digits 4 _) (length_digits 12 _), hsimple]

end Lineage.Uuid

import Lineage.Proofs.Calendar
import Lineage.Proofs.Numeral
import Lineage.Time.Stamp

/-!
# Time stamps are read back

* `number?_padded`: a number is read back from its digits, padded to the width that is read.
* `nanos?_fractionChars`: so are nanoseconds, whether three, six or nine digits are written.
* `read?_text`: the stamp of an instant of the years 0 to 9999 is read back as the instant.
-/

namespace Lineage

/-- A point in time that a stamp gives in full: no leap second, in a year of four digits. -/
structure Instant.IsCivil (t : Instant) : Prop where
  leap : t.leap = false
  low : 0 ≤ (Calendar.ofDayNumber (t.nanos / nanosPerSecond / 86400)).year
  high : (Calendar.ofDayNumber (t.nanos / nanosPerSecond / 86400)).year ≤ 9999

namespace Stamp

open Text Calendar

variable {w n : Nat} {cs rest : List Char}

/-! ## Digits -/

theorem isDigit_of_isDigit {c : Char} (h : c.isDigit = true) : isDigit c = true := by
  obtain ⟨hlow, hhigh⟩ := toNat_of_isDigit h
  simp [isDigit, hlow, hhigh]

theorem length_padded (hw : 0 < w) (hn : n < 10 ^ w) : (padded w n).length = w := by
  have hle : n.repr.toList.length ≤ w := by
    rw [Nat.repr_eq_ofList_toDigits, String.toList_ofList]
    exact (Nat.length_toDigits_le_iff (by decide) hw).2 hn
  rw [padded, List.length_append, List.length_replicate]
  omega

theorem isDigit_of_mem_padded {c : Char} (h : c ∈ padded w n) : c.isDigit = true := by
  rcases List.mem_append.1 h with h | h
  · rw [List.eq_of_mem_replicate h]
    decide
  · exact isDigit_of_mem_repr h

theorem ofDigits_eq (cs : List Char) : ofDigits cs = Nat.ofDigitChars 10 cs 0 :=
  Nat.ofDigitChars_eq_foldl.symm

theorem ofDigits_padded (w n : Nat) : ofDigits (padded w n) = n := by
  rw [ofDigits_eq, padded, Nat.ofDigitChars_append, Nat.ofDigitChars_replicate_zero, Nat.mul_zero,
    Nat.repr_eq_ofList_toDigits, String.toList_ofList, Nat.ofDigitChars_ten_toDigits]

theorem padded_ne_nil (w n : Nat) : padded w n ≠ [] :=
  List.append_ne_nil_of_right_ne_nil _ (repr_ne_nil n)

theorem takeWhile_padded (w n : Nat) (rest : List Char) :
    (padded w n ++ rest).takeWhile isDigit = padded w n ++ rest.takeWhile isDigit :=
  List.takeWhile_append_of_pos fun _ hc => isDigit_of_isDigit (isDigit_of_mem_padded hc)

/-- A padded number is read back by a reader of its width. -/
theorem number?_padded (hw : 0 < w) (hn : n < 10 ^ w) (rest : List Char) :
    number? w (padded w n ++ rest) = some (n, rest) := by
  have hlength := length_padded hw hn
  have htake : ((padded w n ++ rest).take w).takeWhile isDigit = padded w n := by
    rw [List.take_left' hlength]
    simpa using takeWhile_padded w n []
  simp only [number?, htake, List.isEmpty_iff, padded_ne_nil, if_false, ofDigits_padded, hlength,
    List.drop_left' hlength]

theorem trimStart_padded (w n : Nat) (rest : List Char) :
    trimStart (padded w n ++ rest) = padded w n ++ rest := by
  obtain ⟨c, cs, hcs⟩ := List.exists_cons_of_ne_nil (padded_ne_nil w n)
  have hc : isBlank c = false :=
    isBlank_of_isDigit (isDigit_of_mem_padded (hcs ▸ List.mem_cons_self))
  rw [hcs]
  exact List.dropWhile_cons_of_neg (by simp [hc])

theorem field?_padded {low high : Nat} (hlow : low ≤ n) (hhigh : n ≤ high) (hn : n < 100)
    (rest : List Char) : field? low high (padded 2 n ++ rest) = some (n, rest) := by
  simp only [field?, trimStart_padded, number?_padded (by decide : 0 < 2) hn, Option.bind_eq_bind,
    Option.bind_some]
  exact if_pos ⟨hlow, hhigh⟩

theorem year?_padded (hn : n < 10000) (rest : List Char) :
    year? (padded 4 n ++ rest) = some ((n : Int), rest) := by
  have hread := number?_padded (by decide : 0 < 4) hn rest
  rw [year?, trimStart_padded]
  obtain ⟨c, cs, hcs⟩ := List.exists_cons_of_ne_nil (padded_ne_nil 4 n)
  have hc : c.isDigit = true := isDigit_of_mem_padded (hcs ▸ List.mem_cons_self)
  rw [hcs] at hread ⊢
  split
  case h_1 heq => exact absurd ((List.cons.inj heq).1 ▸ hc) (by decide)
  case h_2 heq => exact absurd ((List.cons.inj heq).1 ▸ hc) (by decide)
  case h_3 => rw [hread]; rfl

/-! ## Nanoseconds -/

/-- Digits of a fraction are read as nanoseconds. -/
theorem nanos?_padded (hw : 0 < w) (hw9 : w ≤ 9) (hn : n < 10 ^ w) :
    nanos? ('.' :: padded w n ++ ['Z']) = some (n * 10 ^ (9 - w), ['Z']) := by
  have hlength := length_padded hw hn
  have htake : (padded w n ++ ['Z']).takeWhile isDigit = padded w n :=
    (takeWhile_padded w n ['Z']).trans (List.append_nil _)
  have hnine : (padded w n ++ List.replicate 9 '0').take 9 =
      padded w n ++ List.replicate (9 - w) '0' := by
    rw [List.take_append, hlength, List.take_of_length_le (hlength.trans_le hw9),
      List.take_replicate, Nat.min_eq_left (Nat.sub_le 9 w)]
  have hvalue : ofDigits (padded w n ++ List.replicate (9 - w) '0') = n * 10 ^ (9 - w) := by
    rw [ofDigits_eq, Nat.ofDigitChars_append, Nat.ofDigitChars_replicate_zero, ← ofDigits_eq,
      ofDigits_padded, Nat.mul_comm]
  rw [List.cons_append, nanos?]
  simp only [htake, List.isEmpty_iff, padded_ne_nil, if_false, hnine, hvalue, hlength,
    List.drop_left' hlength]

/-- Nanoseconds are read back, however many digits are written. -/
theorem nanos?_fractionChars (hn : n < nanosPerSecond) :
    nanos? (fractionChars n ++ ['Z']) = some (n, ['Z']) := by
  unfold nanosPerSecond at hn
  unfold fractionChars
  split
  case isTrue h => rw [h]; rfl
  split
  case isTrue h =>
    rw [nanos?_padded (by decide) (by decide) (by omega : n / 1000000 < 10 ^ 3)]
    congr 2
    omega
  split
  case isTrue h =>
    rw [nanos?_padded (by decide) (by decide) (by omega : n / 1000 < 10 ^ 6)]
    congr 2
    omega
  case isFalse h =>
    rw [nanos?_padded (by decide) (by decide) (by omega : n < 10 ^ 9)]
    congr 2
    omega

/-! ## Stamps -/

/-- A stamp is its numbers, padded, with a mark after each. -/
theorem chars_eq {t : Instant} (h : t.IsCivil) :
    let date := ofDayNumber (t.nanos / nanosPerSecond / 86400)
    let ofDay := (t.nanos / nanosPerSecond % 86400).toNat
    chars t = padded 4 date.year.toNat ++ '-' :: (padded 2 date.month ++
      '-' :: (padded 2 date.day ++ 'T' :: (padded 2 (ofDay / 3600) ++
      ':' :: (padded 2 (ofDay / 60 % 60) ++ ':' :: (padded 2 (ofDay % 60) ++
      (fractionChars (t.nanos % nanosPerSecond).toNat ++ ['Z'])))))) := by
  obtain ⟨hleap, hlow, hhigh⟩ := h
  simp [chars, Instant.second, Instant.base, hleap, yearChars, hlow, hhigh]

theorem monthLength_le (y : Int) (m : Nat) : monthLength y m ≤ 31 := by
  unfold monthLength
  split
  · split <;> decide
  all_goals decide

/-- A date that exists has a month of two digits and a day of two digits. -/
theorem bounds_of_isValid {d : Date} (h : d.isValid = true) :
    (1 ≤ d.month ∧ d.month ≤ 12) ∧ 1 ≤ d.day ∧ d.day ≤ 31 := by
  simp only [Date.isValid, Bool.and_eq_true, decide_eq_true_eq] at h
  obtain ⟨⟨⟨hlow, hhigh⟩, hday⟩, hlength⟩ := h
  exact ⟨⟨hlow, hhigh⟩, hday, hlength.trans (monthLength_le _ _)⟩

theorem mark?_cons {c : Char} (hc : isBlank c = false) (rest : List Char) :
    mark? c (c :: rest) = some rest := by
  have htrim : trimStart (c :: rest) = c :: rest := List.dropWhile_cons_of_neg (by simp [hc])
  rw [mark?, htrim]
  exact if_pos rfl

/-- The stamp of an instant is read back. -/
theorem read?_text {t : Instant} (h : t.IsCivil) : read? (text t) = some t := by
  have hchars := chars_eq h
  obtain ⟨hleap, hlow, hhigh⟩ := h
  have hbounds := bounds_of_year hlow hhigh
  have hvalid := isValid_ofDayNumber (t.nanos / nanosPerSecond / 86400)
  have hnumber := dayNumber_ofDayNumber (t.nanos / nanosPerSecond / 86400)
  generalize ofDayNumber (t.nanos / nanosPerSecond / 86400) = date at *
  obtain ⟨⟨hmonth1, hmonth12⟩, hday1, hday31⟩ := bounds_of_isValid hvalid
  have hofDay : (t.nanos / nanosPerSecond % 86400).toNat < 86400 := by omega
  have hsub : (t.nanos % nanosPerSecond).toNat < nanosPerSecond := by
    unfold nanosPerSecond
    omega
  generalize hday : (t.nanos / nanosPerSecond % 86400).toNat = ofDay at *
  generalize hnanos : (t.nanos % nanosPerSecond).toNat = nanos at *
  -- All parts of the stamp are read back.
  have hyear := year?_padded (by omega : date.year.toNat < 10000)
  have hmonth := field?_padded hmonth1 hmonth12 (by omega)
  have hdayOfMonth := field?_padded hday1 hday31 (by omega)
  have hhour := field?_padded (Nat.zero_le _) (by omega : ofDay / 3600 ≤ 23) (by omega)
  have hminute := field?_padded (Nat.zero_le _) (by omega : ofDay / 60 % 60 ≤ 59) (by omega)
  have hsecond := field?_padded (Nat.zero_le _) (by omega : ofDay % 60 ≤ 60) (by omega)
  have hdash := fun cs => mark?_cons (by decide : isBlank '-' = false) cs
  have hcolon := fun cs => mark?_cons (by decide : isBlank ':' = false) cs
  have hseparator : ∀ cs, separator? ('T' :: cs) = some cs := fun _ => rfl
  have hoffset : offset? (trimStart ['Z']) = some (0, []) := rfl
  simp only [read?, text, String.toList_ofList, hchars, hyear, hdash, hmonth, hdayOfMonth,
    hseparator, hhour, hcolon, hminute, hsecond, nanos?_fractionChars hsub, hoffset,
    Option.bind_eq_bind, Option.bind_some, Int.toNat_of_nonneg hlow]
  -- They make up the same instant.
  have hvalue : (dayNumber date * 86400 +
      ((ofDay / 3600 * 60 + ofDay / 60 % 60) * 60 : Nat) + (min (ofDay % 60) 59 : Nat) - 0) *
      nanosPerSecond + nanos = t.nanos := by
    unfold nanosPerSecond at *
    omega
  have hinside : ¬(t.nanos < Instant.first ∨ Instant.last < t.nanos) := by
    unfold nanosPerSecond at *
    unfold Instant.first Instant.last
    omega
  rw [if_neg, hvalue, if_neg hinside, if_neg (by omega), ← hleap]
  simp only [hvalid, trimStart, List.dropWhile_nil, List.isEmpty_nil, not_true_eq_false, false_or,
    or_false]
  omega

end Stamp

end Lineage

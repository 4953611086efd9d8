import Mathlib.Tactic.IntervalCases
import Lineage.Time.Calendar

/-!
# Every number is the number of its day

The years of the computations start in March. 400 of them are an era, four centuries of 36524 days
and a day; a century is 25 cycles of 1461 days but for the last day of the last cycle; a cycle is
four years of 365 days and a day. Each of these spans is cut off with the longest part at its end,
so a year has its 366th day exactly if the next February has a leap day.

* `exists_parts`: the century, the cycle, the year and the day within a day of an era.
* `dayNumber_ofDayNumber`: the day of a number has that number.
* `isValid_ofDayNumber`: the day of a number exists.
-/

namespace Lineage.Calendar

/-! ## Years of an era -/

/-- The year of an era, from zero, that a day of the era lies in. -/
def yearOf (dayOfEra : Nat) : Nat :=
  (dayOfEra - dayOfEra / 1460 + dayOfEra / 36524 - dayOfEra / 146096) / 365

/-- The days of an era before a year. -/
def yearStart (yearOfEra : Nat) : Nat := 365 * yearOfEra + yearOfEra / 4 - yearOfEra / 100

/-- A day of an era as the day `u` of the year `t` of the cycle `q` of the century `c`. -/
structure Parts (c q t u : Nat) : Prop where
  century : c ≤ 3
  cycle : q ≤ 24
  year : t ≤ 3
  day : u ≤ 365
  /-- A 366th day ends a cycle; the last cycle of a century has it only at the end of an era. -/
  last : u = 365 → t = 3 ∧ (q < 24 ∨ c = 3)

variable {c q t u d : Nat}

theorem exists_parts (h : d < 146097) :
    ∃ c q t u, Parts c q t u ∧ d = 36524 * c + 1461 * q + 365 * t + u := by
  obtain ⟨c, r, rfl, hc, hr⟩ :
      ∃ c r, d = 36524 * c + r ∧ c ≤ 3 ∧ (r < 36524 ∨ r = 36524 ∧ c = 3) :=
    ⟨min (d / 36524) 3, d - 36524 * min (d / 36524) 3, by omega, by omega, by omega⟩
  obtain ⟨q, s, rfl, hs⟩ : ∃ q s, r = 1461 * q + s ∧ s ≤ 1460 :=
    ⟨r / 1461, r % 1461, by omega, by omega⟩
  obtain ⟨t, u, rfl, ht, hu⟩ : ∃ t u, s = 365 * t + u ∧ t ≤ 3 ∧ (u < 365 ∨ u = 365 ∧ t = 3) :=
    ⟨min (s / 365) 3, s - 365 * min (s / 365) 3, by omega, by omega, by omega⟩
  exact ⟨c, q, t, u, ⟨hc, by omega, ht, by omega, by omega⟩, by omega⟩

theorem Parts.yearOf_eq (h : Parts c q t u) :
    yearOf (36524 * c + 1461 * q + 365 * t + u) = 100 * c + 4 * q + t := by
  obtain ⟨hc, hq, ht, hu, hlast⟩ := h
  generalize hd : 36524 * c + 1461 * q + 365 * t + u = d
  have hcentury : d / 36524 = c ∨ d / 36524 = 4 := by omega
  -- The other quotients are linear in `q` and `u` once the century and the year of the cycle are
  -- numbers.
  unfold yearOf
  interval_cases c <;> interval_cases t <;> omega

theorem Parts.yearStart_eq (h : Parts c q t u) :
    yearStart (100 * c + 4 * q + t) = 36524 * c + 1461 * q + 365 * t := by
  obtain ⟨hc, hq, ht, -, -⟩ := h
  unfold yearStart
  omega

/-- The year that follows a 366th day has a leap day. -/
theorem Parts.isLeapYear (h : Parts c q t u) (hu : u = 365) (era : Int) :
    isLeapYear (era * 400 + (100 * c + 4 * q + t : Nat) + 1) = true := by
  obtain ⟨hc, hq, -, -, hlast⟩ := h
  obtain ⟨rfl, hqc⟩ := hlast hu
  simp only [Calendar.isLeapYear, Bool.and_eq_true, beq_iff_eq, Bool.or_eq_true, bne_iff_ne]
  omega

/-! ## Months of a year -/

/-- The month, counted from March, that a day of a year lies in. -/
def fromMarch (dayOfYear : Nat) : Nat := (5 * dayOfYear + 2) / 153

/-- The number of a month counted from March. -/
def ofMarch (fromMarch : Nat) : Nat := if fromMarch < 10 then fromMarch + 3 else fromMarch - 9

/-- What the month table says of every day of a year: the month is one of the twelve, the day lies
in it, and it is a 29th of February only at the end of the year. -/
theorem month_table : ∀ d < 366,
    1 ≤ ofMarch (fromMarch d) ∧ ofMarch (fromMarch d) ≤ 12 ∧
    (ofMarch (fromMarch d) + 9) % 12 = fromMarch d ∧ monthStart (fromMarch d) ≤ d ∧
    (d < 365 → d - monthStart (fromMarch d) + 1 ≤ monthLength 1 (ofMarch (fromMarch d))) ∧
    (d = 365 → ofMarch (fromMarch d) = 2 ∧ d - monthStart (fromMarch d) + 1 = 29) := by
  decide +kernel

/-- A month is no shorter than in a year without a leap day. -/
theorem monthLength_one_le (y : Int) (m : Nat) : monthLength 1 m ≤ monthLength y m := by
  unfold monthLength
  split
  · rw [if_neg (by decide)]
    split <;> omega
  all_goals exact Nat.le_refl _

/-! ## Days -/

/-- What makes up the day of a number: an era, a year of it and a day of that. -/
theorem ofDayNumber_eq (n : Int) :
    ∃ (era : Int) (c q t u : Nat), Parts c q t u ∧
      n + 719468 = era * 146097 + (36524 * c + 1461 * q + 365 * t + u : Nat) ∧
      ofDayNumber n =
        ⟨era * 400 + (100 * c + 4 * q + t : Nat) + (if ofMarch (fromMarch u) ≤ 2 then 1 else 0),
          ofMarch (fromMarch u), u - monthStart (fromMarch u) + 1⟩ := by
  obtain ⟨c, q, t, u, hparts, hd⟩ :=
    exists_parts (by omega : ((n + 719468) % 146097).toNat < 146097)
  refine ⟨(n + 719468) / 146097, c, q, t, u, hparts, by omega, ?_⟩
  have hyear : yearOf ((n + 719468) % 146097).toNat = 100 * c + 4 * q + t := hd ▸ hparts.yearOf_eq
  have hday : ((n + 719468) % 146097).toNat - yearStart (100 * c + 4 * q + t) = u := by
    rw [hparts.yearStart_eq, hd]
    omega
  have hunfold : ofDayNumber n =
      let y := yearOf ((n + 719468) % 146097).toNat
      let d := ((n + 719468) % 146097).toNat - yearStart y
      ⟨(n + 719468) / 146097 * 400 + y + (if ofMarch (fromMarch d) ≤ 2 then 1 else 0),
        ofMarch (fromMarch d), d - monthStart (fromMarch d) + 1⟩ := rfl
  rw [hunfold]
  simp only [hyear, hday]

/-- The day of a number has that number. -/
theorem dayNumber_ofDayNumber (n : Int) : dayNumber (ofDayNumber n) = n := by
  obtain ⟨era, c, q, t, u, hparts, hn, hday⟩ := ofDayNumber_eq n
  obtain ⟨-, -, hmarch, hstart, -, -⟩ := month_table u (Nat.lt_succ_of_le hparts.day)
  have hyear : (if ofMarch (fromMarch u) ≤ 2 then
      era * 400 + (100 * c + 4 * q + t : Nat) + (if ofMarch (fromMarch u) ≤ 2 then 1 else 0) - 1
      else era * 400 + (100 * c + 4 * q + t : Nat) + (if ofMarch (fromMarch u) ≤ 2 then 1 else 0)) =
      era * 400 + (100 * c + 4 * q + t : Nat) := by
    split <;> omega
  rw [hday]
  simp only [dayNumber, hyear, hmarch]
  obtain ⟨hc, hq, ht, -, -⟩ := hparts
  omega

/-- The days of the years 0 to 9999 have numbers of at most seven digits. -/
theorem bounds_of_year {n : Int} (hlow : 0 ≤ (ofDayNumber n).year)
    (hhigh : (ofDayNumber n).year ≤ 9999) : -1000000 ≤ n ∧ n ≤ 3000000 := by
  obtain ⟨era, c, q, t, u, hparts, hn, hday⟩ := ofDayNumber_eq n
  rw [hday] at hlow hhigh
  obtain ⟨hc, hq, ht, hu, -⟩ := hparts
  have hera : -1 ≤ era ∧ era ≤ 24 := by
    dsimp only at hlow hhigh
    split at hlow <;> omega
  omega

/-- The day of a number exists. -/
theorem isValid_ofDayNumber (n : Int) : (ofDayNumber n).isValid = true := by
  obtain ⟨era, c, q, t, u, hparts, -, hday⟩ := ofDayNumber_eq n
  obtain ⟨hlow, hhigh, -, -, hlength, hlast⟩ := month_table u (Nat.lt_succ_of_le hparts.day)
  rw [hday]
  simp only [Date.isValid, Bool.and_eq_true, decide_eq_true_eq]
  refine ⟨⟨⟨hlow, hhigh⟩, by omega⟩, ?_⟩
  rcases Nat.lt_or_eq_of_le hparts.day with hu | hu
  · exact Nat.le_trans (hlength hu) (monthLength_one_le _ _)
  · obtain ⟨hmonth, hdays⟩ := hlast hu
    rw [hdays, hmonth, if_pos (by decide)]
    exact Nat.le_of_eq (if_pos (hparts.isLeapYear hu era)).symm

end Lineage.Calendar

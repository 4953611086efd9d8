import Mathlib.Order.Defs.LinearOrder
import Lineage.Time

/-!
# The order of instants

Instants are in a linear order, leap seconds included. A span leads to a later instant, but two
spans of one length may end in the other order than they began if one of them begins in a leap
second.

* `Instant.eq_of_fraction`: the second and the fraction tell an instant, so that the order is
  linear.
* `Instant.lt_after`: where a span leads.
-/

namespace Lineage.Instant

variable {s t : Instant} {n : Nat}

/-! ## The order -/

theorem eq_of_fraction (hsecond : s.second = t.second) (hfraction : s.fraction = t.fraction) :
    s = t := by
  obtain ⟨m, l⟩ := s
  obtain ⟨n, l'⟩ := t
  simp only [fraction, hsecond] at hfraction
  obtain rfl : m = n := by omega
  -- A leap second makes the second one less.
  cases l <;> cases l' <;> simp [second, base, nanosPerSecond] at hsecond ⊢ <;> omega

theorem le_iff : s ≤ t ↔ s.second < t.second ∨ s.second = t.second ∧ s.fraction ≤ t.fraction :=
  Iff.rfl

theorem lt_iff : s < t ↔ s.second < t.second ∨ s.second = t.second ∧ s.fraction < t.fraction :=
  Iff.rfl

instance : LinearOrder Instant where
  le_refl t := .inr ⟨rfl, Int.le_refl _⟩
  le_trans s t u hst htu := by
    rw [le_iff] at *
    omega
  lt_iff_le_not_ge s t := by
    rw [le_iff, le_iff, lt_iff]
    omega
  le_antisymm s t hst hts := by
    rw [le_iff] at hst hts
    exact eq_of_fraction (by omega) (by omega)
  le_total s t := by
    rw [le_iff, le_iff]
    omega
  toDecidableLE := inferInstance

/-! ## Spans -/

theorem base_after : (t.after n).base = t.base + n := by
  unfold after
  split
  case isTrue h =>
    simp only [base, h.1, if_true]
    omega
  case isFalse => rfl

@[simp] theorem after_zero : t.after 0 = t := by
  obtain ⟨m, l⟩ := t
  cases l with
  | false => simp [after, base]
  | true =>
    have hroom : fraction ⟨m, true⟩ + (0 : Nat) < 2 * nanosPerSecond := by
      simp only [fraction, second, base, if_true, nanosPerSecond]
      omega
    rw [after, if_pos ⟨rfl, hroom⟩]
    simp

theorem lt_after (hn : 0 < n) : t < t.after n := by
  have hbase : (t.after n).base = t.base + n := base_after
  rw [lt_iff]
  simp only [second, fraction, hbase, nanosPerSecond]
  unfold after
  split
  case isTrue => dsimp only; omega
  case isFalse hroom =>
    -- Beyond the end of its leap second an instant is in a later second.
    cases hleap : t.leap <;>
      simp only [hleap, base, fraction, second, nanosPerSecond, if_true, if_false,
        Bool.false_eq_true, true_and, false_and] at hroom ⊢ <;> omega

/-- No span leads back. -/
theorem le_after : t ≤ t.after n := by
  rcases Nat.eq_zero_or_pos n with rfl | hn
  · rw [after_zero]
  · exact le_of_lt (lt_after hn)

theorem eq_after_of_add? (h : t.add? n = some s) : s = t.after n := by
  unfold add? at h
  split at h
  · exact (Option.some.inj h).symm
  · cases h

end Lineage.Instant

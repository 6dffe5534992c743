import Mathlib
import Lox.Text.Decimal

set_option autoImplicit false

namespace Lox.Decimal

structure Interval.Holds (i : Interval) (v : ℚ) : Prop where
  low : (i.low : ℚ) / i.scale ≤ v
  high : v ≤ (i.high : ℚ) / i.scale
  ends : i.closed = false → v ≠ i.low / i.scale ∧ v ≠ i.high / i.scale

def Dyadic.ofBits (b : Nat) : Dyadic := .ofFields (b / twoTo 52 % twoTo 11) (b % twoTo 52)

def infinite : Nat := 2047 * twoTo 52

section Edges

variable (d : Dyadic)

def Dyadic.below : Nat := if d.mantissa = twoTo 52 ∧ -1074 < d.exponent then 1 else 2

theorem unit_div_scale (e : Int) : (twoTo (e - 2).toNat : ℚ) / twoTo (2 - e).toNat = 2 ^ (e - 2) := by
  simp only [twoTo, Nat.pow_eq, Nat.cast_pow, Nat.cast_ofNat]
  rw [← zpow_natCast, ← zpow_natCast, ← zpow_sub₀ (by norm_num : (2 : ℚ) ≠ 0)]
  congr 1
  omega

theorem Dyadic.low_eq :
    (d.interval.low : ℚ) / d.interval.scale = (4 * d.mantissa - d.below : Nat) * 2 ^ (d.exponent - 2) := by
  rw [← unit_div_scale, interval, below]
  push_cast
  ring

theorem Dyadic.high_eq :
    (d.interval.high : ℚ) / d.interval.scale = (4 * d.mantissa + 2 : Nat) * 2 ^ (d.exponent - 2) := by
  rw [← unit_div_scale, interval]
  push_cast
  ring

theorem Dyadic.value_eq :
    (d.interval.value : ℚ) / d.interval.scale = (4 * d.mantissa : Nat) * 2 ^ (d.exponent - 2) := by
  rw [← unit_div_scale, interval]
  push_cast
  ring

end Edges

section Bits

variable {b b' : Nat}

theorem twoTo_52 : twoTo 52 = 4503599627370496 := by norm_num [twoTo]

theorem infinite_eq : infinite = 9218868437227405312 := by norm_num [infinite, twoTo]

theorem ofBits_small (small : b < twoTo 52) : Dyadic.ofBits b = ⟨b, -1074⟩ := by
  have zero : b / twoTo 52 = 0 := Nat.div_eq_of_lt small
  simp [Dyadic.ofBits, Dyadic.ofFields, zero, Nat.mod_eq_of_lt small]

theorem ofBits_large {k f : Nat} (power : k < 2046) (fraction : f < twoTo 52) :
    Dyadic.ofBits ((k + 1) * twoTo 52 + f) = ⟨f + twoTo 52, k - 1074⟩ := by
  have quotient : ((k + 1) * twoTo 52 + f) / twoTo 52 = k + 1 := by
    rw [twoTo_52] at *
    omega
  have rest : ((k + 1) * twoTo 52 + f) % twoTo 52 = f := by
    rw [twoTo_52] at *
    omega
  have small : (k + 1) % twoTo 11 = k + 1 := Nat.mod_eq_of_lt (by norm_num [twoTo]; omega)
  simp only [Dyadic.ofBits, Dyadic.ofFields, quotient, rest, small, Nat.add_eq_zero_iff, one_ne_zero,
    and_false, if_false, Dyadic.mk.injEq, true_and]
  push_cast
  ring

theorem exists_fields (finite : b < infinite) (large : twoTo 52 ≤ b) :
    ∃ k f, b = (k + 1) * twoTo 52 + f ∧ k < 2046 ∧ f < twoTo 52 := by
  rw [infinite_eq] at finite
  rw [twoTo_52] at *
  exact ⟨b / 4503599627370496 - 1, b % 4503599627370496, by omega, by omega, by omega⟩

theorem ofBits_succ (finite : b + 1 < infinite) :
    ((Dyadic.ofBits (b + 1)).mantissa = (Dyadic.ofBits b).mantissa + 1 ∧
      (Dyadic.ofBits (b + 1)).exponent = (Dyadic.ofBits b).exponent ∧ (Dyadic.ofBits (b + 1)).below = 2) ∨
    ((Dyadic.ofBits (b + 1)).mantissa = twoTo 52 ∧ (Dyadic.ofBits b).mantissa + 1 = twoTo 53 ∧
      (Dyadic.ofBits (b + 1)).exponent = (Dyadic.ofBits b).exponent + 1 ∧ (Dyadic.ofBits (b + 1)).below = 1) := by
  by_cases small : b < twoTo 52
  · left
    rw [ofBits_small small]
    rcases Nat.lt_or_eq_of_le (Nat.succ_le_of_lt small) with next | next
    · rw [ofBits_small next]
      exact ⟨rfl, rfl, if_neg fun both => absurd both.2 (lt_irrefl _)⟩
    · have first : b + 1 = (0 + 1) * twoTo 52 + 0 := by omega
      rw [first, ofBits_large (by decide) (by decide)]
      exact ⟨by simp only; omega, rfl, if_neg fun both => absurd both.2 (by decide)⟩
  · obtain ⟨k, f, rfl, power, fraction⟩ := exists_fields (Nat.lt_of_succ_lt finite) (Nat.le_of_not_lt small)
    rw [ofBits_large power fraction]
    rcases Nat.lt_or_eq_of_le (Nat.succ_le_of_lt fraction) with next | next
    · left
      rw [Nat.add_assoc, ofBits_large power next]
      exact ⟨by simp only; omega, rfl, if_neg fun both => absurd both.1 (by simp only; omega)⟩
    · right
      have first : (k + 1) * twoTo 52 + f + 1 = (k + 1 + 1) * twoTo 52 + 0 := by
        rw [twoTo_52] at *
        omega
      have bounded : k + 1 < 2046 := by
        rw [infinite_eq] at finite
        rw [twoTo_52] at *
        omega
      rw [first, ofBits_large bounded (by decide)]
      refine ⟨by simp only; omega, ?_, by push_cast; ring, if_pos ⟨by simp only; omega, by simp only; omega⟩⟩
      have double : twoTo 53 = 2 * twoTo 52 := by norm_num [twoTo]
      simp only
      omega

theorem mantissa_lt (finite : b < infinite) : (Dyadic.ofBits b).mantissa < twoTo 53 := by
  have double : twoTo 53 = 2 * twoTo 52 := by norm_num [twoTo]
  by_cases small : b < twoTo 52
  · rw [ofBits_small small]
    simp only
    omega
  · obtain ⟨k, f, rfl, power, fraction⟩ := exists_fields finite (Nat.le_of_not_lt small)
    rw [ofBits_large power fraction]
    simp only
    omega

def lower (b : Nat) : ℚ := (Dyadic.ofBits b).interval.low / (Dyadic.ofBits b).interval.scale

def upper (b : Nat) : ℚ := (Dyadic.ofBits b).interval.high / (Dyadic.ofBits b).interval.scale

theorem upper_eq_lower (finite : b + 1 < infinite) : upper b = lower (b + 1) := by
  rw [upper, lower, Dyadic.high_eq, Dyadic.low_eq]
  rcases ofBits_succ finite with ⟨mantissa, exponent, below⟩ | ⟨mantissa, full, exponent, below⟩
  · rw [mantissa, exponent, below]
    congr 2
  · rw [mantissa, exponent, below, add_sub_right_comm, zpow_add_one₀ (by norm_num : (2 : ℚ) ≠ 0)]
    have whole : (4 * (Dyadic.ofBits b).mantissa + 2 : Nat) = 2 * (4 * twoTo 52 - 1) := by
      have double : twoTo 53 = 2 * twoTo 52 := by norm_num [twoTo]
      omega
    rw [whole]
    push_cast
    ring

theorem lower_lt_upper (b : Nat) : lower b < upper b := by
  rw [upper, lower, Dyadic.high_eq, Dyadic.low_eq]
  gcongr
  omega

theorem upper_le_lower (finite : b' < infinite) (before : b < b') : upper b ≤ lower b' := by
  induction b', before using Nat.le_induction with
  | base => exact (upper_eq_lower finite).le
  | succ c before ih =>
    calc upper b ≤ lower c := ih (Nat.lt_of_succ_lt finite)
      _ ≤ upper c := (lower_lt_upper c).le
      _ = lower (c + 1) := upper_eq_lower finite

theorem closed_iff : (Dyadic.ofBits b).interval.closed = true ↔ b % 2 = 0 := by
  have parity : (Dyadic.ofBits b).mantissa % 2 = b % 2 := by
    rw [Dyadic.ofBits, Dyadic.ofFields, twoTo_52]
    split
    · simp only
      omega
    · simp only
      omega
  simp [Dyadic.interval, parity]

theorem not_holds_both {v : ℚ} (finite : b' < infinite) (before : b < b')
    (holds : (Dyadic.ofBits b).interval.Holds v) : ¬ (Dyadic.ofBits b').interval.Holds v := by
  intro holds'
  have high : v ≤ upper b := holds.high
  have low : lower b' ≤ v := holds'.low
  -- only the point where two intervals meet is left, and it belongs to the even one
  rcases Nat.lt_or_eq_of_le (Nat.succ_le_of_lt before) with gap | next
  · have apart := upper_le_lower finite gap
    have meet := upper_eq_lower (gap.trans finite)
    linarith [lower_lt_upper (b + 1)]
  · have meet : upper b = lower b' := by rw [← next, Nat.succ_eq_add_one, upper_eq_lower (by omega)]
    have even : b % 2 = 0 := by
      rw [← closed_iff, ← Bool.not_eq_false]
      exact fun opened => (holds.ends opened).2 (le_antisymm high (meet.trans_le low))
    have even' : b' % 2 = 0 := by
      rw [← closed_iff, ← Bool.not_eq_false]
      exact fun opened => (holds'.ends opened).1 (le_antisymm (high.trans_eq meet) low)
    omega

/-- A number lies in the interval of one double at most. -/
theorem holds_unique {v : ℚ} (finite : b < infinite) (finite' : b' < infinite)
    (holds : (Dyadic.ofBits b).interval.Holds v) (holds' : (Dyadic.ofBits b').interval.Holds v) : b = b' := by
  rcases Nat.lt_trichotomy b b' with before | same | after
  · exact absurd holds' (not_holds_both finite' before holds)
  · exact same
  · exact absurd holds (not_holds_both finite after holds')

end Bits

end Lox.Decimal

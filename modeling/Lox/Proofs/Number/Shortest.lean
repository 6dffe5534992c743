import Lox.Proofs.Number.Intervals

set_option autoImplicit false

namespace Lox.Decimal

namespace Interval

variable {i : Interval} {v : ℚ}

theorem holds_iff : i.Holds v ↔
    if i.closed then (i.low : ℚ) / i.scale ≤ v ∧ v ≤ (i.high : ℚ) / i.scale
    else (i.low : ℚ) / i.scale < v ∧ v < (i.high : ℚ) / i.scale := by
  split
  next closed => exact ⟨fun h => ⟨h.low, h.high⟩, fun h => ⟨h.1, h.2, fun opened => by simp_all⟩⟩
  next opened =>
    constructor
    · intro h
      obtain ⟨low, high⟩ := h.ends (by simpa using opened)
      exact ⟨h.low.lt_of_ne low.symm, h.high.lt_of_ne high⟩
    · exact fun h => ⟨h.1.le, h.2.le, fun _ => ⟨h.1.ne', h.2.ne⟩⟩

theorem zpow_ten (p : Int) : (10 : ℚ) ^ p = (tenTo p.toNat : ℚ) / tenTo (-p).toNat := by
  simp only [tenTo, Nat.pow_eq, Nat.cast_pow, Nat.cast_ofNat]
  rw [← zpow_natCast, ← zpow_natCast, ← zpow_sub₀ (by norm_num : (10 : ℚ) ≠ 0)]
  congr 1
  omega

theorem tenTo_pos (n : Nat) : 0 < (tenTo n : ℚ) := by
  simp [tenTo]

theorem contains_iff {n : Nat} : i.contains n = true ↔
    if i.closed then i.low ≤ n * i.scale ∧ n * i.scale ≤ i.high
    else i.low < n * i.scale ∧ n * i.scale < i.high := by
  unfold contains
  split <;> simp

theorem le_on_grid (positive : 0 < i.scale) (power : Int) (k n : Nat) :
    (k : ℚ) / i.scale ≤ n * 10 ^ power ↔ k * tenTo (-power).toNat ≤ n * (i.scale * tenTo power.toNat) := by
  have scale : (0 : ℚ) < i.scale := by exact_mod_cast positive
  rw [zpow_ten, div_le_iff₀ scale, ← mul_div_assoc, div_mul_eq_mul_div, le_div_iff₀ (tenTo_pos _)]
  norm_cast
  rw [Nat.mul_assoc, Nat.mul_comm (tenTo _)]

theorem ge_on_grid (positive : 0 < i.scale) (power : Int) (k n : Nat) :
    n * 10 ^ power ≤ (k : ℚ) / i.scale ↔ n * (i.scale * tenTo power.toNat) ≤ k * tenTo (-power).toNat := by
  have scale : (0 : ℚ) < i.scale := by exact_mod_cast positive
  rw [zpow_ten, le_div_iff₀ scale, ← mul_div_assoc, div_mul_eq_mul_div, div_le_iff₀ (tenTo_pos _)]
  norm_cast
  rw [Nat.mul_assoc, Nat.mul_comm (tenTo _)]

theorem contains_onGrid (positive : 0 < i.scale) (power : Int) (n : Nat) :
    (i.onGrid power).contains n = true ↔ i.Holds (n * 10 ^ power) := by
  simp only [contains_iff, holds_iff, ← not_le, le_on_grid positive, ge_on_grid positive, onGrid]

theorem pick?_isSome (positive : 0 < i.scale) (low : i.low ≤ i.value) (high : i.value < i.high)
    (wide : i.low + i.scale < i.high) : i.pick?.isSome := by
  have floor : i.value / i.scale * i.scale ≤ i.value := Nat.div_mul_le_self _ _
  have ceiling : i.value < (i.value / i.scale + 1) * i.scale := by
    rw [Nat.add_one_mul]
    exact Nat.lt_div_mul_add positive
  simp only [pick?]
  split
  next left right =>
    rw [← Bool.not_eq_true, contains_iff] at left right
    rw [Nat.add_one_mul] at ceiling right
    cases closed : i.closed <;> simp only [closed, if_true, Bool.false_eq_true, if_false] at left right <;> omega
  · rfl
  · rfl
  · split <;> rfl

theorem contains_of_pick? {n : Nat} (picked : i.pick? = some n) : i.contains n = true := by
  simp only [pick?] at picked
  split at picked
  · cases picked
  · cases picked
    assumption
  · cases picked
    assumption
  · split at picked <;> cases picked <;> assumption

theorem search_holds (positive : 0 < i.scale) {tries : Nat} {power : Int} {k : Nat} (soon : k < tries)
    (found : (i.onGrid (power - k)).pick?.isSome) :
    i.Holds ((i.search tries power).1 * 10 ^ (i.search tries power).2) := by
  induction tries generalizing power k with
  | zero => omega
  | succ tries ih =>
    unfold search
    split
    next n picked => exact (contains_onGrid positive power n).1 (contains_of_pick? picked)
    next missed =>
      cases k with
      | zero => simp [missed] at found
      | succ k =>
        have later : power - (k + 1 : Nat) = power - 1 - k := by omega
        exact ih (Nat.lt_of_succ_lt_succ soon) (later ▸ found)

theorem wide_onGrid (positive : 0 < i.scale) {power : Int}
    (wide : (i.low : ℚ) / i.scale + 10 ^ power < i.high / i.scale) :
    (i.onGrid power).low + (i.onGrid power).scale < (i.onGrid power).high := by
  have scale : (0 : ℚ) < i.scale := by exact_mod_cast positive
  have up := tenTo_pos (-power).toNat
  rw [zpow_ten, div_add_div _ _ scale.ne' up.ne', div_lt_div_iff₀ (mul_pos scale up) scale] at wide
  have cleared : (i.low * tenTo (-power).toNat + i.scale * tenTo power.toNat : ℚ) <
      i.high * tenTo (-power).toNat := by
    nlinarith
  exact_mod_cast cleared

end Interval

theorem tenTo_le_of_digits {n : Nat} (positive : 0 < n) : tenTo ((Nat.toDigits 10 n).length - 1) ≤ n := by
  rcases Nat.eq_zero_or_pos ((Nat.toDigits 10 n).length - 1) with single | more
  · rw [single]
    exact positive
  · by_contra large
    have shorter := (Nat.length_toDigits_le_iff (b := 10) (n := n) (by norm_num) more).2 (Nat.lt_of_not_le large)
    omega

theorem tenth_le {value scale k : Nat} (some : 0 < scale) (h : scale ≤ value * tenTo k) :
    (10 : ℚ) ^ (-(k : Int)) ≤ value / scale := by
  have scale_pos : (0 : ℚ) < scale := by exact_mod_cast some
  rw [zpow_neg, zpow_natCast, inv_eq_one_div, div_le_div_iff₀ (by positivity) scale_pos, one_mul]
  exact_mod_cast h

theorem magnitude_le {value scale : Nat} (positive : 0 < value) (some : 0 < scale) :
    (10 : ℚ) ^ magnitude value scale ≤ value / scale := by
  unfold magnitude
  split
  next large =>
    have digits := tenTo_le_of_digits (Nat.div_pos large some)
    have power : ((Nat.toDigits 10 (value / scale)).length : Int) - 1 =
        ((Nat.toDigits 10 (value / scale)).length - 1 : Nat) := by
      rw [Nat.cast_sub Nat.length_toDigits_pos, Nat.cast_one]
    calc (10 : ℚ) ^ (((Nat.toDigits 10 (value / scale)).length : Int) - 1)
        = tenTo ((Nat.toDigits 10 (value / scale)).length - 1) := by rw [power, zpow_natCast]; simp [tenTo]
      _ ≤ (value / scale : Nat) := by exact_mod_cast digits
      _ ≤ value / scale := Nat.cast_div_le
  next small =>
    dsimp only
    split
    next exact_power =>
      have power : -(((Nat.toDigits 10 (scale / value)).length : Int) - 1) =
          -((Nat.toDigits 10 (scale / value)).length - 1 : Nat) := by
        rw [Nat.cast_sub Nat.length_toDigits_pos, Nat.cast_one]
      rw [power]
      exact tenth_le some exact_power
    next =>
      refine tenth_le some (Nat.le_of_lt ?_)
      rw [Nat.mul_comm, ← Nat.div_lt_iff_lt_mul positive]
      exact (Nat.length_toDigits_le_iff (by norm_num) Nat.length_toDigits_pos).1 (Nat.le_refl _)

namespace Dyadic

variable {d : Dyadic}

theorem below_le (positive : 0 < d.mantissa) : d.below ≤ 4 * d.mantissa := by
  unfold below
  split <;> omega

theorem magnitude_lt_width (bounded : d.mantissa < twoTo 53) : 4 * d.mantissa < (d.below + 2) * tenTo 16 := by
  have powers : twoTo 52 = 4503599627370496 ∧ twoTo 53 = 9007199254740992 ∧ tenTo 16 = 10000000000000000 := by
    norm_num [twoTo, tenTo]
  unfold below
  split <;> omega

theorem scale_pos : 0 < d.interval.scale := Nat.pow_pos (by norm_num)

theorem unit_pos : 0 < twoTo (d.exponent - 2).toNat := Nat.pow_pos (by norm_num)

theorem low_le_value : d.interval.low ≤ d.interval.value := Nat.mul_le_mul_right _ (Nat.sub_le _ _)

theorem value_lt_high : d.interval.value < d.interval.high := Nat.mul_lt_mul_of_pos_right (by omega) unit_pos

theorem search_holds (positive : 0 < d.mantissa) (bounded : d.mantissa < twoTo 53) :
    d.interval.Holds ((d.interval.search 17 (magnitude d.interval.value d.interval.scale)).1 *
      10 ^ (d.interval.search 17 (magnitude d.interval.value d.interval.scale)).2) := by
  have ten (n : Nat) : 0 < tenTo n := Nat.pow_pos (by norm_num)
  have value : 0 < d.interval.value := Nat.mul_pos (by omega) unit_pos
  have scale : 0 < d.interval.scale := scale_pos
  have leading := magnitude_le value scale
  have wide : (d.interval.low : ℚ) / d.interval.scale +
      10 ^ (magnitude d.interval.value d.interval.scale - (16 : Nat)) <
      d.interval.high / d.interval.scale := by
    have unit : (0 : ℚ) < 2 ^ (d.exponent - 2) := by positivity
    have room : (4 * d.mantissa : ℚ) < (d.below + 2) * 10 ^ 16 := by
      have room := magnitude_lt_width bounded
      simp only [tenTo, Nat.pow_eq] at room
      exact_mod_cast room
    have step : (10 : ℚ) ^ (magnitude d.interval.value d.interval.scale - (16 : Nat)) <
        (d.below + 2) * 2 ^ (d.exponent - 2) := by
      rw [zpow_sub₀ (by norm_num : (10 : ℚ) ≠ 0), zpow_natCast, div_lt_iff₀ (by norm_num)]
      calc (10 : ℚ) ^ magnitude d.interval.value d.interval.scale
          ≤ 4 * d.mantissa * 2 ^ (d.exponent - 2) := by simpa [value_eq] using leading
        _ < (d.below + 2) * 10 ^ 16 * 2 ^ (d.exponent - 2) := mul_lt_mul_of_pos_right room unit
        _ = (d.below + 2) * 2 ^ (d.exponent - 2) * 10 ^ 16 := by ring
    rw [low_eq, high_eq, Nat.cast_sub (below_le positive)]
    push_cast at step ⊢
    linarith
  exact Interval.search_holds scale (k := 16) (by decide) (Interval.pick?_isSome
    (Nat.mul_pos scale (ten _)) (Nat.mul_le_mul_right _ low_le_value)
    (Nat.mul_lt_mul_of_pos_right value_lt_high (ten _)) (Interval.wide_onGrid scale wide))

theorem holds_value : d.interval.Holds (d.mantissa * 2 ^ d.exponent) := by
  have scale : (0 : ℚ) < d.interval.scale := by exact_mod_cast scale_pos
  have value : (d.mantissa * 2 ^ d.exponent : ℚ) = d.interval.value / d.interval.scale := by
    rw [value_eq, zpow_sub₀ (by norm_num)]
    push_cast
    ring
  have high : (d.interval.value : ℚ) < d.interval.high := by exact_mod_cast value_lt_high
  have low : (d.interval.low : ℚ) ≤ d.interval.value := by exact_mod_cast low_le_value
  rw [value]
  refine ⟨by gcongr, by gcongr, fun opened => ⟨?_, (by gcongr : _ < _).ne⟩⟩
  have positive : 0 < d.mantissa := by
    rw [Nat.pos_iff_ne_zero]
    intro zero
    simp [interval, zero] at opened
  have below : 0 < d.below := by
    unfold below
    split <;> decide
  have strict : (d.interval.low : ℚ) < d.interval.value := by
    exact_mod_cast Nat.mul_lt_mul_of_pos_right (Nat.sub_lt (by omega) below) unit_pos
  exact ne_of_gt (by gcongr)

theorem toNat?_eq {n : Nat} (whole : d.toNat? = some n) : (n : ℚ) = d.mantissa * 2 ^ d.exponent := by
  unfold toNat? at whole
  split at whole
  next e exponent =>
    cases whole
    simp [exponent, twoTo]
  next e exponent =>
    split at whole
    next divides =>
      cases whole
      rw [exponent, zpow_negSucc, ← div_eq_mul_inv, Nat.cast_div (Nat.dvd_of_mod_eq_zero divides)]
      · simp [twoTo]
      · simp [twoTo]
    · cases whole

end Dyadic

section Digits

theorem natOfDigits_eq (cs : List Char) : natOfDigits cs = Nat.ofDigitChars 10 cs 0 :=
  Nat.ofDigitChars_eq_foldl.symm

theorem natOfDigits_append (cs ds : List Char) :
    natOfDigits (cs ++ ds) = natOfDigits cs * 10 ^ ds.length + natOfDigits ds := by
  simp only [natOfDigits_eq, Nat.ofDigitChars_append]
  rw [Nat.ofDigitChars_eq_ofDigitChars_zero, Nat.mul_comm]

theorem natOfDigits_zeros (k : Nat) : natOfDigits (List.replicate k '0') = 0 := by
  rw [natOfDigits_eq, Nat.ofDigitChars_replicate_zero, Nat.mul_zero]

theorem natOfDigits_toDigits (n : Nat) : natOfDigits (Nat.toDigits 10 n) = n := by
  rw [natOfDigits_eq, Nat.ofDigitChars_ten_toDigits]

def Digits.worth (d : Digits) : ℚ := natOfDigits d.digits * 10 ^ (d.power + 1 - d.digits.length)

theorem exists_trailing (cs : List Char) :
    ∃ k, cs = (cs.reverse.dropWhile (· == '0')).reverse ++ List.replicate k '0' := by
  refine ⟨(cs.reverse.takeWhile (· == '0')).length, ?_⟩
  have zeros : cs.reverse.takeWhile (· == '0') = List.replicate (cs.reverse.takeWhile (· == '0')).length '0' :=
    List.eq_replicate_iff.2 ⟨rfl, fun c member => by simpa using List.mem_takeWhile_imp member⟩
  rw [← List.reverse_inj, List.reverse_append, List.reverse_reverse, List.reverse_replicate, ← zeros,
    List.takeWhile_append_dropWhile]

theorem worth_trimmed (n : Nat) (power : Int) :
    Digits.worth ⟨((Nat.toDigits 10 n).reverse.dropWhile (· == '0')).reverse,
      power + ((Nat.toDigits 10 n).length : Int) - 1⟩ = n * 10 ^ power := by
  obtain ⟨k, split⟩ := exists_trailing (Nat.toDigits 10 n)
  generalize ((Nat.toDigits 10 n).reverse.dropWhile (· == '0')).reverse = ds at split ⊢
  have number : n = natOfDigits ds * 10 ^ k := by
    rw [← natOfDigits_toDigits n, split, natOfDigits_append, natOfDigits_zeros, List.length_replicate,
      Nat.add_zero]
  have place : power + ((Nat.toDigits 10 n).length : Int) - 1 + 1 - ds.length = k + power := by
    rw [split, List.length_append, List.length_replicate]
    push_cast
    ring
  rw [Digits.worth, place, zpow_add₀ (by norm_num), zpow_natCast, ← mul_assoc]
  congr 1
  exact_mod_cast number.symm

/-- The shortest digits of a double stand for a number that rounds to it. -/
theorem Dyadic.shortest_holds {d : Dyadic} (bounded : d.mantissa < twoTo 53) :
    d.interval.Holds d.shortest.worth := by
  unfold shortest
  split
  next zero =>
    have nothing : Digits.worth ⟨['0'], 0⟩ = d.mantissa * 2 ^ d.exponent := by
      simp [Digits.worth, natOfDigits, zero]
    exact nothing ▸ holds_value
  next some =>
    dsimp only
    rw [worth_trimmed]
    exact search_holds (Nat.pos_of_ne_zero some) bounded

end Digits

end Lox.Decimal

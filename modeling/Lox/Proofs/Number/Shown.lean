import Lox.Number
import Lox.Proofs.Number.Shortest

set_option autoImplicit false

namespace Lox.Number

open Decimal

def Proper (x : Float) : Prop := x.toBits.toNat ≤ infinite

instance (x : Float) : Decidable (Proper x) := inferInstanceAs (Decidable (_ ≤ _))

section Bits

open Float.Model.UnpackedFloat Float.Model.Format

theorem exponent_eq_iff (v : BitVec 64) :
    @unpackExponent binary64 v = -1#11 ↔ v.toNat / twoTo 52 % twoTo 11 = 2047 := by
  rw [unpackExponent_def, ← BitVec.toNat_inj]
  simp [BitVec.extractLsb'_toNat, Nat.shiftRight_eq_div_pow, twoTo]

theorem fraction_eq_iff (v : BitVec 64) : @unpackMantissa binary64 v = 0#52 ↔ v.toNat % twoTo 52 = 0 := by
  rw [unpackMantissa_def, ← BitVec.toNat_inj]
  simp [BitVec.extractLsb'_toNat, twoTo]

theorem isFinite_iff {x : Float} : x.isFinite = true ↔ x.toBits.toNat / twoTo 52 % twoTo 11 ≠ 2047 := by
  rw [← UInt64.toNat_toBitVec, Ne, ← exponent_eq_iff]
  show (unpack binary64 x.toBits.toBitVec).isFinite = true ↔ _
  unfold unpack
  dsimp only
  split
  · split <;> simp_all [Float.Model.UnpackedFloat.isFinite]
  · split
    · split <;> simp_all [Float.Model.UnpackedFloat.isFinite]
    · simp_all [Float.Model.UnpackedFloat.isFinite]

theorem toBits_ofBits {n : Nat} (bounded : n ≤ infinite) : (Float.ofBits n.toUInt64).toBits.toNat = n := by
  have small : n < 2 ^ 64 := by
    rw [infinite_eq] at bounded
    omega
  have word : n.toUInt64.toNat = n := UInt64.toNat_ofNat_of_lt' small
  have number : @isNaNBits binary64 n.toUInt64.toBitVec = false := by
    rw [isNaNBits, decide_eq_false_iff_not, exponent_eq_iff, Ne, fraction_eq_iff, UInt64.toNat_toBitVec, word]
    rw [infinite_eq] at bounded
    simp only [twoTo_52, show twoTo 11 = 2048 by norm_num [twoTo]]
    omega
  show (pack binary64 (unpack binary64 n.toUInt64.toBitVec)).toNat = n
  rw [pack_unpack, number]
  exact word

theorem proper_ofBits {n : Nat} (bounded : n ≤ infinite) : Proper (Float.ofBits n.toUInt64) := by
  rw [Proper, toBits_ofBits bounded]
  exact bounded

end Bits

namespace Proper

variable {x y : Float}

theorem beq_iff (proper : Proper x) (proper' : Proper y) : (x == y) = true ↔ x = y := by
  have nan {z : Float} (h : Proper z) : z ≠ Float.nan := by
    rintro rfl
    exact absurd h (by decide +kernel)
  have zero {z : Float} (h : Proper z) : z ≠ -0 := by
    rintro rfl
    exact absurd h (by decide +kernel)
  simp [Float.beq_iff_ne_nan_and_eq, nan proper, nan proper', zero proper, zero proper']

theorem isNegative (proper : Proper x) : Decimal.isNegative x = false := by
  have small : x.toBits.toNat / twoTo 63 = 0 := by
    refine Nat.div_eq_of_lt (Nat.lt_of_le_of_lt proper ?_)
    norm_num [infinite, twoTo]
  simp [Decimal.isNegative, small]

theorem isFinite (finite : x.toBits.toNat < infinite) : x.isFinite = true := by
  rw [infinite_eq] at finite
  rw [isFinite_iff, twoTo_52, show twoTo 11 = 2048 by norm_num [twoTo]]
  omega

theorem eq_infinity (limit : x.toBits.toNat = infinite) : x = Float.ofBits infinite.toUInt64 := by
  rw [← Float.toBits_inj, ← UInt64.toNat_inj, limit, toBits_ofBits (Nat.le_refl _)]

end Proper

theorem written_of_isFinite {x : Float} (finite : x.isFinite = true) :
    written x = (if Decimal.isNegative x then "-" else "") ++ layout.write (Dyadic.ofFloat x).shortest := by
  have number : x.isNaN = false ∧ x.isInf = false := by
    change x.toModel.unpack.isFinite = true at finite
    change x.toModel.unpack.isNaN = false ∧ x.toModel.unpack.isInf = false
    cases kind : x.toModel.unpack <;> rw [kind] at finite <;> first | exact ⟨rfl, rfl⟩ | cases finite
  simp only [written, number, Bool.false_eq_true, if_false]

section Texts

def exponentOf : List Char → Int
  | 'e' :: '-' :: ds => -(natOfDigits ds : Int)
  | 'e' :: '+' :: ds => natOfDigits ds
  | _ => 0

def named (cs : List Char) : ℚ :=
  let mantissa := cs.takeWhile (· != 'e')
  let fraction := (mantissa.dropWhile (· != '.')).drop 1
  natOfDigits (mantissa.takeWhile (· != '.') ++ fraction) *
    10 ^ (exponentOf (cs.dropWhile (· != 'e')) - fraction.length)

def AllDigits (cs : List Char) : Prop := ∀ c ∈ cs, c.isDigit = true

variable {whole fraction tail : List Char}

theorem AllDigits.ne {c : Char} (digits : AllDigits whole) (other : c.isDigit = false) :
    ∀ d ∈ whole, (d != c) = true := by
  intro d member
  rw [bne_iff_ne]
  rintro rfl
  rw [digits d member] at other
  cases other

def Ends (tail : List Char) : Prop := tail = [] ∨ ∃ ds, tail = 'e' :: ds

theorem Ends.takeWhile {cs : List Char} (without : ∀ c ∈ cs, (c != 'e') = true) (ends : Ends tail) :
    (cs ++ tail).takeWhile (· != 'e') = cs ∧ (cs ++ tail).dropWhile (· != 'e') = tail := by
  rw [List.takeWhile_append_of_pos without, List.dropWhile_append_of_pos without]
  rcases ends with rfl | ⟨ds, rfl⟩ <;> simp

theorem named_whole (digits : AllDigits whole) (ends : Ends tail) :
    named (whole ++ tail) = natOfDigits whole * 10 ^ exponentOf tail := by
  have parts := ends.takeWhile (digits.ne (by decide : 'e'.isDigit = false))
  have point := digits.ne (by decide : '.'.isDigit = false)
  have noPoint : whole.takeWhile (· != '.') = whole ∧ whole.dropWhile (· != '.') = [] :=
    ⟨List.takeWhile_eq_self_iff.2 point, List.dropWhile_eq_nil_iff.2 point⟩
  simp [named, parts, noPoint]

theorem named_point (digits : AllDigits whole) (digits' : AllDigits fraction) (ends : Ends tail) :
    named (whole ++ '.' :: fraction ++ tail) =
      natOfDigits (whole ++ fraction) * 10 ^ (exponentOf tail - fraction.length) := by
  have exponent : ∀ c ∈ whole ++ '.' :: fraction, (c != 'e') = true := by
    intro c member
    rcases List.mem_append.1 member with here | here
    · exact digits.ne (by decide) c here
    · rcases List.mem_cons.1 here with rfl | here
      · decide
      · exact digits'.ne (by decide) c here
  have parts := ends.takeWhile exponent
  have point := digits.ne (by decide : '.'.isDigit = false)
  simp only [named, parts]
  simp [List.takeWhile_append_of_pos point, List.dropWhile_append_of_pos point]

theorem allDigits_zeros (k : Nat) : AllDigits (List.replicate k '0') := by
  intro c member
  rw [List.eq_of_mem_replicate member]
  decide

theorem AllDigits.append (digits : AllDigits whole) (digits' : AllDigits fraction) :
    AllDigits (whole ++ fraction) := by
  intro c member
  rcases List.mem_append.1 member with here | here
  · exact digits c here
  · exact digits' c here

theorem AllDigits.sublist {cs : List Char} (digits : AllDigits whole) (some : cs ⊆ whole) : AllDigits cs :=
  fun c member => digits c (some member)

theorem natOfDigits_append_zeros (cs : List Char) (k : Nat) :
    natOfDigits (cs ++ List.replicate k '0') = natOfDigits cs * 10 ^ k := by
  rw [natOfDigits_append, natOfDigits_zeros, List.length_replicate, Nat.add_zero]

theorem natOfDigits_zeros_append (cs : List Char) (k : Nat) :
    natOfDigits (List.replicate k '0' ++ cs) = natOfDigits cs := by
  rw [natOfDigits_append, natOfDigits_zeros, Nat.zero_mul, Nat.zero_add]

theorem mul_pow_ten (n t : Nat) (k : Int) : ((n * 10 ^ t : Nat) : ℚ) * 10 ^ k = n * 10 ^ (t + k) := by
  rw [zpow_add₀ (by norm_num), zpow_natCast]
  push_cast
  ring

theorem named_positional {d : Digits} (digits : AllDigits d.digits) : named (Layout.positional d) = d.worth := by
  unfold Layout.positional
  split
  next p power =>
    have front := (digits.sublist (List.take_subset (p + 1) _)).append
      (allDigits_zeros (p + 1 - (d.digits.take (p + 1)).length))
    dsimp only
    split
    next none =>
      have short : d.digits.length ≤ p + 1 := by simpa using none
      have text := named_point front (allDigits_zeros 1) (.inl rfl : Ends [])
      rw [List.append_nil] at text
      refine text.trans ?_
      rw [natOfDigits_append_zeros, List.take_of_length_le short, natOfDigits_append_zeros, Nat.mul_assoc,
        ← Nat.pow_add, mul_pow_ten, Digits.worth, power]
      congr 2
      simp [exponentOf]
      omega
    next some =>
      have long : p + 1 < d.digits.length := by simpa using some
      have text := named_point front (digits.sublist (List.drop_subset (p + 1) _)) (.inl rfl : Ends [])
      rw [List.append_nil] at text
      have full : p + 1 - (d.digits.take (p + 1)).length = 0 := by simp; omega
      rw [text, full, Digits.worth, power, List.replicate_zero, List.append_nil, List.take_append_drop]
      congr 2
      simp [exponentOf]
      omega
  next p power =>
    have text := named_point (by simp [AllDigits] : AllDigits ['0']) ((allDigits_zeros p).append digits)
      (.inl rfl : Ends [])
    rw [List.append_nil] at text
    refine text.trans ?_
    rw [← List.append_assoc, ← List.replicate_one, ← List.replicate_add, natOfDigits_zeros_append,
      Digits.worth, power]
    congr 2
    simp [exponentOf]
    omega

theorem exponentOf_power (power : Int) (k : Nat) :
    exponentOf ('e' :: (if power < 0 then '-' else '+') :: (List.replicate k '0' ++ Nat.toDigits 10 power.natAbs)) =
      power := by
  split <;> simp only [exponentOf, natOfDigits_zeros_append, natOfDigits_toDigits] <;> omega

theorem named_scientific (l : Layout) {d : Digits} (digits : AllDigits d.digits) :
    named (l.scientific d) = d.worth := by
  have exponent := exponentOf_power d.power (l.exponentWidth - (Nat.toDigits 10 d.power.natAbs).length)
  unfold Layout.scientific Digits.worth
  dsimp only
  rw [List.append_assoc, List.cons_append, List.cons_append]
  have ends : Ends ('e' :: (if d.power < 0 then '-' else '+') ::
      (List.replicate (l.exponentWidth - (Nat.toDigits 10 d.power.natAbs).length) '0' ++
        Nat.toDigits 10 d.power.natAbs)) := .inr ⟨_, rfl⟩
  generalize 'e' :: (if d.power < 0 then '-' else '+') :: _ = tail at exponent ends ⊢
  split
  next none =>
    rw [named_whole (by simp [AllDigits]) ends, none]
    simp [natOfDigits]
  next c single =>
    rw [single] at digits
    rw [named_whole digits ends, exponent, single]
    simp
  next c rest _ many =>
    rw [many] at digits
    have text := named_point (digits.sublist (by simp) : AllDigits [c])
      (digits.sublist (by simp) : AllDigits rest) ends
    refine text.trans ?_
    rw [exponent, many]
    congr 2
    simp

theorem named_write (l : Layout) {d : Digits} (digits : AllDigits d.digits) :
    named (l.write d).toList = d.worth := by
  rw [Layout.write, String.toList_ofList]
  split
  · exact named_positional digits
  · exact named_scientific l digits

theorem allDigits_toDigits (n : Nat) : AllDigits (Nat.toDigits 10 n) :=
  fun _ member => Nat.isDigit_of_mem_toDigits (by decide) (by decide) member

theorem allDigits_shortest (d : Decimal.Dyadic) : AllDigits d.shortest.digits := by
  unfold Dyadic.shortest
  split
  · simp [AllDigits]
  · intro c member
    have inside := (List.dropWhile_sublist _).subset (List.mem_reverse.1 member)
    exact allDigits_toDigits _ c (List.mem_reverse.1 inside)

def Numeral (c : Char) : Prop := c.isDigit = true ∨ c ∈ ['.', 'e', '+', '-']

instance (c : Char) : Decidable (Numeral c) := inferInstanceAs (Decidable (_ ∨ _))

theorem AllDigits.numeral (digits : AllDigits whole) : ∀ c ∈ whole, Numeral c :=
  fun c member => .inl (digits c member)

theorem numeral_positional {d : Digits} (digits : AllDigits d.digits) :
    ∀ c ∈ Layout.positional d, Numeral c := by
  have point : Numeral '.' := .inr (by decide)
  have zero : Numeral '0' := .inl (by decide)
  unfold Layout.positional
  split
  next p _ =>
    dsimp only
    rw [List.forall_mem_append, List.forall_mem_append, List.forall_mem_cons]
    refine ⟨⟨(digits.sublist (List.take_subset _ _)).numeral, (allDigits_zeros _).numeral⟩, point, ?_⟩
    split
    · simpa using zero
    · exact (digits.sublist (List.drop_subset _ _)).numeral
  next p _ =>
    rw [List.cons_append, List.cons_append, List.forall_mem_cons, List.forall_mem_cons]
    exact ⟨zero, point, ((allDigits_zeros p).append digits).numeral⟩

theorem numeral_scientific (l : Layout) {d : Digits} (digits : AllDigits d.digits) :
    ∀ c ∈ l.scientific d, Numeral c := by
  have point : Numeral '.' := .inr (by decide)
  have mark : Numeral 'e' := .inr (by decide)
  have sign : Numeral (if d.power < 0 then '-' else '+') := by split <;> exact .inr (by decide)
  unfold Layout.scientific
  dsimp only
  rw [List.append_assoc, List.cons_append, List.cons_append, List.forall_mem_append, List.forall_mem_cons,
    List.forall_mem_cons]
  refine ⟨?_, mark, sign, ((allDigits_zeros _).append (allDigits_toDigits _)).numeral⟩
  split
  · simp
  next c single => exact (single ▸ digits).numeral
  next c rest _ many =>
    rw [many] at digits
    have all := digits.numeral
    rw [List.forall_mem_cons] at all ⊢
    exact ⟨all.1, List.forall_mem_cons.2 ⟨point, all.2⟩⟩

theorem numeral_write (l : Layout) {d : Digits} (digits : AllDigits d.digits) :
    l.write d ≠ "" ∧ ∀ c ∈ (l.write d).toList, Numeral c := by
  rw [← String.toList_inj.ne, Layout.write, String.toList_ofList]
  split
  · refine ⟨?_, numeral_positional digits⟩
    unfold Layout.positional
    split <;> simp
  · exact ⟨by simp [Layout.scientific], numeral_scientific l digits⟩

end Texts

section Shown

variable {x y : Float}

theorem shown_cases (finite : x.toBits.toNat < infinite) :
    (∃ n, (Dyadic.ofFloat x).toNat? = some n ∧ (shown x).toList = Nat.toDigits 10 n) ∨
      shown x = layout.write (Dyadic.ofFloat x).shortest := by
  have number := Proper.isFinite finite
  have positive := Proper.isNegative (Nat.le_of_lt finite)
  rw [shown, if_pos number]
  split
  next n whole => exact .inl ⟨n, whole, by simp [positive]⟩
  next => exact .inr (by simp [written_of_isFinite number, positive])

theorem shown_holds (finite : x.toBits.toNat < infinite) :
    (Dyadic.ofFloat x).interval.Holds (named (shown x).toList) := by
  rcases shown_cases finite with ⟨n, whole, text⟩ | text
  · have value := named_whole (allDigits_toDigits n) (.inl rfl : Ends [])
    rw [List.append_nil, natOfDigits_toDigits] at value
    rw [text, value, Dyadic.toNat?_eq whole]
    simpa [exponentOf] using Dyadic.holds_value
  · rw [text, named_write layout (allDigits_shortest _)]
    exact Dyadic.shortest_holds (mantissa_lt finite)

theorem shown_infinite : shown (Float.ofBits infinite.toUInt64) = "inf" := by decide +kernel

theorem numeral_shown (finite : x.toBits.toNat < infinite) :
    shown x ≠ "" ∧ ∀ c ∈ (shown x).toList, Numeral c := by
  rcases shown_cases finite with ⟨n, -, text⟩ | text
  · rw [← String.toList_inj.ne, text]
    exact ⟨Nat.toDigits_ne_nil, (allDigits_toDigits n).numeral⟩
  · rw [text]
    exact numeral_write layout (allDigits_shortest _)

theorem shown_ne_infinite (finite : x.toBits.toNat < infinite) : shown x ≠ "inf" := by
  intro same
  have letter := (numeral_shown finite).2 'i' (by rw [same]; decide)
  exact absurd letter (by decide)

theorem shown_inj (proper : Proper x) (proper' : Proper y) : shown x = shown y ↔ x = y := by
  refine ⟨fun same => ?_, fun same => by rw [same]⟩
  rcases Nat.lt_or_eq_of_le proper with finite | limit <;>
    rcases Nat.lt_or_eq_of_le proper' with finite' | limit'
  · have holds := shown_holds finite
    rw [same] at holds
    rw [← Float.toBits_inj, ← UInt64.toNat_inj]
    exact holds_unique finite finite' holds (shown_holds finite')
  · rw [Proper.eq_infinity limit', shown_infinite] at same
    exact absurd same (shown_ne_infinite finite)
  · rw [Proper.eq_infinity limit, shown_infinite] at same
    exact absurd same.symm (shown_ne_infinite finite')
  · rw [Proper.eq_infinity limit, Proper.eq_infinity limit']

end Shown

end Lox.Number

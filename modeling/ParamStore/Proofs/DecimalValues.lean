import Mathlib.Algebra.Order.Field.Power
import Mathlib.Data.List.TakeWhile
import Mathlib.Data.Rat.Cast.Order
import Mathlib.Tactic.Positivity
import ParamStore.Proofs.IntegerTexts

set_option autoImplicit false

namespace ParamStore
namespace Text

theorem to_nat_append (front back : Text) :
    toNat (front ++ back) = toNat front * 10 ^ back.length + toNat back := by
  unfold toNat
  rw [Nat.ofDigitChars_append, Nat.ofDigitChars_eq_ofDigitChars_zero, Nat.mul_comm]

theorem to_nat_eq_zero_iff (digits : Text) (all : digits.allDigits = true) :
    toNat digits = 0 ↔ digits.any (· != '0') = false := by
  have dropped := drop_zeros_value digits all
  have zeros : digits.dropWhile (· == '0') = [] ↔ digits.any (· != '0') = false := by
    simp [List.dropWhile_eq_nil_iff]
  rw [← zeros, dropped]
  by_cases zero : toNat digits = 0
  · simp [zero]
  · simp [zero, of_nat_ne_nil]

end Text

namespace Decimal

def wholeAt (decimal : Decimal) (places : Nat) : Nat :=
  Text.toNat (decimal.significant.take places) * Nat.pow 10 (places - decimal.significant.length)

def fractionAt (decimal : Decimal) (places : Nat) : Nat :=
  Text.toNat (decimal.significant.drop places)

theorem dividend_split (decimal : Decimal) (places : Nat) (place : decimal.point = places) :
    decimal.dividend = decimal.wholeAt places * decimal.divisor + decimal.fractionAt places := by
  rw [dividend, divisor, place, wholeAt, fractionAt]
  by_cases short : decimal.significant.length ≤ places
  · have power : ((places : Int) - decimal.significant.length).toNat =
        places - decimal.significant.length := by omega
    have none : (-((places : Int) - decimal.significant.length)).toNat = 0 := by omega
    rw [power, none, List.take_of_length_le short, List.drop_eq_nil_of_le short]
    simp [Text.toNat]
  · have none : ((places : Int) - decimal.significant.length).toNat = 0 := by omega
    have power : (-((places : Int) - decimal.significant.length)).toNat =
        decimal.significant.length - places := by omega
    have behind := Text.to_nat_append (decimal.significant.take places)
      (decimal.significant.drop places)
    rw [List.take_append_drop, List.length_drop] at behind
    rw [power, none, Nat.sub_eq_zero_of_le (by omega), behind]
    simp

theorem drop_digits (decimal : Decimal) (all : Text.allDigits decimal.significant = true)
    (places : Nat) : Text.allDigits (decimal.significant.drop places) = true := by
  rw [Text.all_digits_iff] at all ⊢
  exact fun c member => all c (List.mem_of_mem_drop member)

theorem fraction_lt_divisor (decimal : Decimal) (places : Nat) (place : decimal.point = places)
    (all : Text.allDigits decimal.significant = true) :
    decimal.fractionAt places < decimal.divisor := by
  have below := Text.to_nat_lt _ (decimal.drop_digits all places)
  have power : (-(decimal.point - decimal.significant.length : Int)).toNat =
      decimal.significant.length - places := by omega
  rw [List.length_drop] at below
  rwa [divisor, power]

theorem whole_lt (decimal : Decimal) (places : Nat)
    (all : Text.allDigits decimal.significant = true) : decimal.wholeAt places < 10 ^ places := by
  have digits : Text.allDigits (decimal.significant.take places) = true := by
    rw [Text.all_digits_iff] at all ⊢
    exact fun c member => all c (List.mem_of_mem_take member)
  have below := Text.to_nat_lt _ digits
  have powers : (decimal.significant.take places).length +
      (places - decimal.significant.length) = places := by
    rw [List.length_take]
    omega
  calc decimal.wholeAt places
      < 10 ^ (decimal.significant.take places).length *
          10 ^ (places - decimal.significant.length) :=
        Nat.mul_lt_mul_of_pos_right below (Nat.pow_pos (by decide))
    _ = 10 ^ places := by rw [← Nat.pow_add, powers]

theorem dividend_pos (decimal : Decimal) (all : Text.allDigits decimal.significant = true)
    (some : decimal.significant ≠ []) : 0 < decimal.dividend := by
  obtain ⟨first, rest, same⟩ := List.exists_cons_of_ne_nil some
  rw [same] at all
  have digit := (Text.all_digits_iff _).mp all first (List.mem_cons_self ..)
  have least := Text.le_to_nat first rest digit (decimal.significant_head first rest same)
  rw [dividend, same]
  exact Nat.mul_pos (Nat.lt_of_lt_of_le (Nat.pow_pos (by decide)) least) (Nat.pow_pos (by decide))

-- Where the point stands among the first places, the digits behind it decide, and then the size.
theorem magnitude_within (text : Text) (decimal : Decimal)
    (all : Text.allDigits decimal.significant = true) (some : decimal.significant ≠ [])
    (places : Nat) (place : decimal.point = places) (positive : 0 < places)
    (short : places ≤ mostPlaces) :
    decimal.magnitude text =
      if decimal.fractionAt places ≠ 0 then .error (.typeMismatch (.notIntegral text))
      else if decimal.wholeAt places < Width.w128.count then .ok (decimal.wholeAt places)
      else .error (.tooLarge text .integer) := by
  have count : decimal.point.toNat = places := by omega
  have above : ¬ decimal.point ≤ 0 := by omega
  have near : ¬ mostPlaces < places := Nat.not_lt_of_le short
  have zeros := Text.to_nat_eq_zero_iff _ (decimal.drop_digits all places)
  rw [magnitude]
  simp only [some, above, count, near, if_false]
  by_cases none : decimal.fractionAt places = 0
  · rw [if_neg (not_not_intro none), zeros.mp none, if_neg Bool.false_ne_true]
    rfl
  · have behind : (decimal.significant.drop places).any (· != '0') = true := by
      rw [← Bool.not_eq_false]
      exact fun zero => none (zeros.mpr zero)
    rw [if_pos none, behind, if_pos rfl]

theorem magnitude_cases (text : Text) (decimal : Decimal)
    (all : Text.allDigits decimal.significant = true) :
    (∃ n, decimal.magnitude text = .ok n ∧ n < Width.w128.count ∧
      decimal.dividend = n * decimal.divisor) ∨
    (decimal.magnitude text = .error (.typeMismatch (.notIntegral text)) ∧
      ¬ decimal.divisor ∣ decimal.dividend ∧
      decimal.dividend < 10 ^ mostPlaces * decimal.divisor) ∨
    (decimal.magnitude text = .error (.tooLarge text .integer) ∧
      ((∃ n, Width.w128.count ≤ n ∧ decimal.dividend = n * decimal.divisor) ∨
        10 ^ mostPlaces * decimal.divisor ≤ decimal.dividend)) := by
  by_cases none : decimal.significant = []
  · refine .inl ⟨0, by simp [magnitude, none], by decide +kernel, ?_⟩
    simp [dividend, none, Text.toNat]
  by_cases small : decimal.point ≤ 0
  · -- The first digit stands behind the point, so the value is between zero and one.
    have below := decimal.dividend_lt all 0 (by simpa using small)
    rw [Nat.pow_zero, Nat.mul_one] at below
    refine .inr (.inl ⟨by simp [magnitude, none, small],
      Nat.not_dvd_of_pos_of_lt (decimal.dividend_pos all none) below, ?_⟩)
    exact Nat.lt_of_lt_of_le below (Nat.le_mul_of_pos_left _ (Nat.pow_pos (by decide)))
  obtain ⟨places, place⟩ := Int.eq_ofNat_of_zero_le (show 0 ≤ decimal.point by omega)
  by_cases long : mostPlaces < places
  · have least := decimal.le_dividend all none mostPlaces (by omega)
    have count : decimal.point.toNat = places := by omega
    refine .inr (.inr ⟨by simp [magnitude, none, small, count, long], .inr ?_⟩)
    rwa [Nat.mul_comm]
  have within := decimal.magnitude_within text all none places place (by omega) (Nat.le_of_not_lt long)
  have split := decimal.dividend_split places place
  have behind := decimal.fraction_lt_divisor places place all
  rw [within]
  by_cases zero : decimal.fractionAt places = 0
  · rw [zero, Nat.add_zero] at split
    rw [if_neg (not_not_intro zero)]
    by_cases fits : decimal.wholeAt places < Width.w128.count
    · rw [if_pos fits]
      exact .inl ⟨_, rfl, fits, split⟩
    · rw [if_neg fits]
      exact .inr (.inr ⟨rfl, .inl ⟨_, Nat.le_of_not_lt fits, split⟩⟩)
  · rw [if_pos zero]
    refine .inr (.inl ⟨rfl, ?_, ?_⟩)
    · rw [split, Nat.dvd_add_right (Nat.dvd_mul_left _ _)]
      exact Nat.not_dvd_of_pos_of_lt (Nat.pos_of_ne_zero zero) behind
    · have front := decimal.whole_lt places all
      have powers : 10 ^ places ≤ 10 ^ mostPlaces :=
        Nat.pow_le_pow_right (by decide) (Nat.le_of_not_lt long)
      calc decimal.dividend
          < (decimal.wholeAt places + 1) * decimal.divisor := by rw [split, Nat.add_mul]; omega
        _ ≤ 10 ^ mostPlaces * decimal.divisor :=
          Nat.mul_le_mul_right _ (Nat.le_trans front powers)

def size (decimal : Decimal) : ℚ :=
  Text.toNat (decimal.whole ++ decimal.fraction) *
    (10 : ℚ) ^ (decimal.exponent - decimal.fraction.length)

theorem size_divisor (decimal : Decimal) :
    decimal.size * decimal.divisor = decimal.dividend := by
  have digits : Text.toNat (decimal.whole ++ decimal.fraction) = Text.toNat decimal.significant :=
    (Text.to_nat_drop_zeros _).symm
  have shorter : decimal.significant.length ≤ (decimal.whole ++ decimal.fraction).length :=
    (List.dropWhile_sublist _).length_le
  have power : decimal.exponent - decimal.fraction.length =
      decimal.point - decimal.significant.length := by
    rw [point_place, leading]
    rw [List.length_append] at shorter ⊢
    omega
  rw [size, digits, power, dividend, divisor]
  generalize decimal.point - decimal.significant.length = shift
  have scaled : (10 : ℚ) ^ shift * (10 : ℚ) ^ (-shift).toNat = (10 : ℚ) ^ shift.toNat := by
    rw [← zpow_natCast, ← zpow_natCast, ← zpow_add₀ (by norm_num)]
    congr 1
    omega
  simp only [Nat.pow_eq, Nat.cast_mul, Nat.cast_pow, Nat.cast_ofNat]
  rw [mul_assoc, scaled]

theorem size_nonneg (decimal : Decimal) : 0 ≤ decimal.size := by
  rw [size]
  positivity

theorem size_whole (decimal : Decimal) (n : Nat)
    (multiple : decimal.dividend = n * decimal.divisor) : decimal.size = n := by
  have scale := decimal.size_divisor
  have positive : (decimal.divisor : ℚ) ≠ 0 := by exact_mod_cast Nat.ne_of_gt decimal.divisor_pos
  rw [multiple, Nat.cast_mul] at scale
  exact mul_right_cancel₀ positive scale

theorem size_broken (decimal : Decimal) (broken : ¬ decimal.divisor ∣ decimal.dividend) (n : Int) :
    decimal.size ≠ n := by
  intro whole
  have scale := decimal.size_divisor
  have least := decimal.size_nonneg
  rw [whole] at scale least
  obtain ⟨m, rfl⟩ := Int.eq_ofNat_of_zero_le (by exact_mod_cast least : 0 ≤ n)
  refine broken ⟨m, ?_⟩
  rw [Nat.mul_comm]
  exact_mod_cast scale.symm

def signed (negative : Bool) (decimal : Decimal) : ℚ := if negative then -decimal.size else decimal.size

theorem abs_signed (negative : Bool) (decimal : Decimal) : |decimal.signed negative| = decimal.size := by
  have least := abs_of_nonneg decimal.size_nonneg
  cases negative with
  | false => exact least
  | true => exact (abs_neg _).trans least

theorem signed_whole (negative : Bool) (decimal : Decimal) (n : Nat) (whole : decimal.size = n) :
    decimal.signed negative = ((if negative then -(n : Int) else n : Int) : ℚ) := by
  cases negative with
  | false => exact whole
  | true => simp [signed, whole]

theorem signed_broken (negative : Bool) (decimal : Decimal) (broken : ∀ n : Int, decimal.size ≠ n)
    (n : Int) : decimal.signed negative ≠ n := by
  intro whole
  cases negative with
  | false => exact broken n whole
  | true =>
    apply broken (-n)
    rw [Int.cast_neg, ← whole]
    exact (neg_neg _).symm

theorem magnitude_size (text : Text) (decimal : Decimal)
    (all : Text.allDigits decimal.significant = true) :
    (∃ n : Nat, decimal.magnitude text = .ok n ∧ n < Width.w128.count ∧ decimal.size = n) ∨
    (decimal.magnitude text = .error (.typeMismatch (.notIntegral text)) ∧
      (∀ n : Int, decimal.size ≠ n) ∧ decimal.size < 10 ^ mostPlaces) ∨
    (decimal.magnitude text = .error (.tooLarge text .integer) ∧
      (Width.w128.count : ℚ) ≤ decimal.size ∧
      ((∃ n : Nat, decimal.size = n) ∨ 10 ^ mostPlaces ≤ decimal.size)) := by
  have scale := decimal.size_divisor
  have positive : (0 : ℚ) < decimal.divisor := by exact_mod_cast decimal.divisor_pos
  rcases decimal.magnitude_cases text all with
    ⟨n, done, fits, multiple⟩ | ⟨done, broken, below⟩ | ⟨done, ⟨n, least, multiple⟩ | least⟩
  · exact .inl ⟨n, done, fits, decimal.size_whole n multiple⟩
  · refine .inr (.inl ⟨done, decimal.size_broken broken, lt_of_mul_lt_mul_right ?_ positive.le⟩)
    rw [scale]
    exact_mod_cast below
  · have whole := decimal.size_whole n multiple
    refine .inr (.inr ⟨done, ?_, .inl ⟨n, whole⟩⟩)
    rw [whole]
    exact_mod_cast least
  · have large : (10 : ℚ) ^ mostPlaces ≤ decimal.size := by
      refine le_of_mul_le_mul_right ?_ positive
      rw [scale]
      exact_mod_cast least
    have count : (Width.w128.count : ℚ) ≤ 10 ^ mostPlaces := by
      exact_mod_cast Nat.le_of_lt (w128_count_lt mostPlaces (Nat.le_refl _))
    exact .inr (.inr ⟨done, count.trans large, .inr large⟩)

end Decimal
end ParamStore

import ParamStore.Proofs.ExactIntegers
import ParamStore.Proofs.RoundedValues

set_option autoImplicit false

namespace ParamStore
namespace Binary

def exact (x : Double) : ℚ :=
  let size : ℚ := x.units / Format.double.one
  if x.negative then -size else size

theorem one_ne_zero : (Format.double.one : ℚ) ≠ 0 := by
  exact_mod_cast Nat.ne_of_gt (Format.one_pos _)

theorem abs_exact (x : Double) : |x.exact| = x.units / Format.double.one := by
  have least : (0 : ℚ) ≤ x.units / Format.double.one := by positivity
  rw [exact]
  cases x.negative with
  | false => exact abs_of_nonneg least
  | true => exact (abs_neg _).trans (abs_of_nonneg least)

theorem of_decimal_rounds (negative : Bool) (decimal : Decimal)
    (digits : Text.allDigits decimal.significant = true) :
    (ofDecimal negative decimal).negative = negative ∧
      (ofDecimal negative decimal).magnitude = Format.double.round decimal.dividend decimal.divisor := by
  by_cases none : decimal.significant = []
  · have nothing : decimal.dividend = 0 := by simp [Decimal.dividend, none, Text.toNat]
    rw [ofDecimal, if_pos (.inl none), nothing, Format.round_zero _ _ decimal.divisor_pos]
    exact ⟨rfl, rfl⟩
  · rw [of_decimal_nearest negative decimal digits none]
    exact ⟨rfl, rfl⟩

theorem size_dist (units : Nat) (decimal : Decimal) :
    |(units : ℚ) / Format.double.one - decimal.size| =
      Nat.dist (units * decimal.divisor) (decimal.dividend * Format.double.one) /
        (Format.double.one * decimal.divisor) := by
  have gap (n m : Nat) : ((Nat.dist n m : Nat) : ℚ) = |(n : ℚ) - m| := by
    rcases Nat.le_total n m with less | more
    · rw [Nat.dist_eq_sub_of_le less, Nat.cast_sub less, abs_sub_comm]
      exact (abs_of_nonneg (sub_nonneg.mpr (by exact_mod_cast less))).symm
    · rw [Nat.dist_eq_sub_of_le_right more, Nat.cast_sub more]
      exact (abs_of_nonneg (sub_nonneg.mpr (by exact_mod_cast more))).symm
  have scale : (0 : ℚ) < Format.double.one * decimal.divisor := by
    exact_mod_cast Nat.mul_pos (Format.one_pos _) decimal.divisor_pos
  have whole : (units : ℚ) / Format.double.one * (Format.double.one * decimal.divisor) =
      units * decimal.divisor := by
    rw [← mul_assoc, div_mul_cancel₀ _ one_ne_zero]
  have value : decimal.size * (Format.double.one * decimal.divisor) =
      decimal.dividend * Format.double.one := by
    rw [← decimal.size_divisor]
    ring
  rw [gap, eq_div_iff (ne_of_gt scale), Nat.cast_mul, Nat.cast_mul, ← whole, ← value, ← sub_mul, abs_mul,
    abs_of_pos scale]

theorem round_size (decimal : Decimal) (magnitude : Nat)
    (finite : Format.double.round decimal.dividend decimal.divisor < Format.double.infinity)
    (other : magnitude < Format.double.infinity) :
    |(Format.double.units (Format.double.round decimal.dividend decimal.divisor) : ℚ) /
          Format.double.one - decimal.size| ≤
        |(Format.double.units magnitude : ℚ) / Format.double.one - decimal.size| ∧
      (|(Format.double.units (Format.double.round decimal.dividend decimal.divisor) : ℚ) /
          Format.double.one - decimal.size| =
          |(Format.double.units magnitude : ℚ) / Format.double.one - decimal.size| →
        magnitude ≠ Format.double.round decimal.dividend decimal.divisor →
        Format.double.round decimal.dividend decimal.divisor % 2 = 0) := by
  obtain ⟨nearer, even⟩ := Format.double.round_nearest decimal.dividend decimal.divisor magnitude
    decimal.divisor_pos (by decide) finite other
  have scale : (0 : ℚ) < Format.double.one * decimal.divisor := by
    exact_mod_cast Nat.mul_pos (Format.one_pos _) decimal.divisor_pos
  rw [size_dist, size_dist]
  refine ⟨(div_le_div_iff_of_pos_right scale).mpr (by exact_mod_cast nearer), fun tie => even ?_⟩
  exact_mod_cast (div_left_inj' (ne_of_gt scale)).mp tie

theorem exact_dist (x : Double) (decimal : Decimal) :
    |x.exact - decimal.signed x.negative| = |(x.units : ℚ) / Format.double.one - decimal.size| := by
  rw [exact, Decimal.signed]
  cases x.negative with
  | false => rfl
  | true => rw [if_pos rfl, if_pos rfl, neg_sub_neg, abs_sub_comm]

theorem exact_farther (x : Double) (negative : Bool) (decimal : Decimal) :
    |(x.units : ℚ) / Format.double.one - decimal.size| ≤ |x.exact - decimal.signed negative| := by
  rw [← abs_exact, ← Decimal.abs_signed negative decimal]
  exact abs_abs_sub_abs_le _ _

end Binary

theorem decode_float_nearest (text : Text) (value : ℚ) (spells : text.Spells value) (x : Double)
    (decoded : decodeFloat text = .ok x) :
    x.isFinite = true ∧ ∀ y : Double, y.isFinite = true →
      |x.exact - value| ≤ |y.exact - value| ∧
        (|x.exact - value| = |y.exact - value| → y.magnitude ≠ x.magnitude → x.magnitude % 2 = 0) := by
  obtain ⟨decimal, read, worth⟩ := (Text.spells_iff text value).mp spells
  have form := (Decimal.of_text_iff _ decimal).mp read
  have word : (Text.splitSign text).2 ≠ Text.infinity := by
    intro same
    rw [same] at read
    cases read
  obtain ⟨sign, rounds⟩ := Binary.of_decimal_rounds (Text.splitSign text).1 decimal
    (Decimal.significant_all _ decimal form)
  rw [decodeFloat] at decoded
  simp only [if_neg word, read] at decoded
  split at decoded
  · cases decoded
  · rename_i noInfinity
    cases decoded
    generalize Binary.ofDecimal (Text.splitSign text).1 decimal = x at sign rounds noInfinity ⊢
    have finite : x.magnitude < Format.double.infinity := by
      have most := Format.round_le_infinity Format.double decimal.dividend decimal.divisor
      have below : x.magnitude ≠ Format.double.infinity := by simpa [Binary.isInfinite] using noInfinity
      omega
    refine ⟨by simpa [Binary.isFinite] using finite, fun y yFinite => ?_⟩
    obtain ⟨nearer, even⟩ := Binary.round_size decimal y.magnitude (by rwa [← rounds])
      (by simpa [Binary.isFinite] using yFinite)
    rw [← rounds] at nearer even
    have own := x.exact_dist decimal
    have farther := y.exact_farther x.negative decimal
    rw [worth, ← sign, own]
    refine ⟨nearer.trans farther, fun tie => even ?_⟩
    exact le_antisymm nearer (farther.trans_eq tie.symm)

end ParamStore

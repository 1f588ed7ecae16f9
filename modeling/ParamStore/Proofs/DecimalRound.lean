import ParamStore.Proofs.DecimalTexts

set_option autoImplicit false

namespace ParamStore

namespace Decimal

theorem significant_head (decimal : Decimal) (first : Char) (rest : Text)
    (same : decimal.significant = first :: rest) : first ≠ '0' := by
  have head := List.head?_dropWhile_not (· == '0') (decimal.whole ++ decimal.fraction)
  rw [significant] at same
  rw [same] at head
  simpa using head

def dividend (decimal : Decimal) : Nat :=
  Text.toNat decimal.significant * Nat.pow 10 (decimal.point - decimal.significant.length).toNat

def divisor (decimal : Decimal) : Nat :=
  Nat.pow 10 (-(decimal.point - decimal.significant.length : Int)).toNat

theorem divisor_pos (decimal : Decimal) : 0 < divisor decimal := Nat.pow_pos (by decide)

theorem le_dividend (decimal : Decimal) (digits : Text.allDigits decimal.significant = true)
    (some : decimal.significant ≠ []) (places : Nat) (large : (places : Int) < decimal.point) :
    divisor decimal * 10 ^ places ≤ dividend decimal := by
  cases same : decimal.significant with
  | nil => exact absurd same some
  | cons first rest =>
    have digit := (Text.all_digits_iff _).mp digits first (by rw [same]; exact List.mem_cons_self ..)
    have lower := Text.le_to_nat first rest digit (significant_head decimal first rest same)
    have powers : (-(decimal.point - decimal.significant.length : Int)).toNat + places ≤
        rest.length + (decimal.point - decimal.significant.length).toNat := by
      rw [same, List.length_cons]
      omega
    rw [divisor, dividend]
    calc Nat.pow 10 (-(decimal.point - decimal.significant.length : Int)).toNat * 10 ^ places
        = 10 ^ ((-(decimal.point - decimal.significant.length : Int)).toNat + places) :=
          (Nat.pow_add _ _ _).symm
      _ ≤ 10 ^ (rest.length + (decimal.point - decimal.significant.length).toNat) :=
          Nat.pow_le_pow_right (by decide) powers
      _ = 10 ^ rest.length * 10 ^ (decimal.point - decimal.significant.length).toNat :=
          Nat.pow_add _ _ _
      _ ≤ Text.toNat decimal.significant *
            Nat.pow 10 (decimal.point - decimal.significant.length).toNat := by
          rw [← same] at lower
          exact Nat.mul_le_mul_right _ lower

theorem dividend_lt (decimal : Decimal) (digits : Text.allDigits decimal.significant = true)
    (places : Nat) (small : decimal.point ≤ -(places : Int)) :
    dividend decimal * 10 ^ places < divisor decimal := by
  have upper := Text.to_nat_lt decimal.significant digits
  have power : (decimal.point - decimal.significant.length).toNat = 0 := by omega
  have powers : decimal.significant.length + places ≤
      (-(decimal.point - decimal.significant.length : Int)).toNat := by omega
  rw [divisor, dividend]
  rw [power]
  calc Text.toNat decimal.significant * Nat.pow 10 0 * 10 ^ places
      = Text.toNat decimal.significant * 10 ^ places := by rw [Nat.pow_eq, Nat.pow_zero, Nat.mul_one]
    _ < 10 ^ decimal.significant.length * 10 ^ places :=
        Nat.mul_lt_mul_of_pos_right upper (Nat.pow_pos (by decide))
    _ = 10 ^ (decimal.significant.length + places) := (Nat.pow_add _ _ _).symm
    _ ≤ Nat.pow 10 (-(decimal.point - decimal.significant.length : Int)).toNat :=
        Nat.pow_le_pow_right (by decide) powers

end Decimal

namespace Format

theorem round_cross (format : Format) (dividend divisor other otherDivisor : Nat)
    (positive : 0 < divisor) (otherPositive : 0 < otherDivisor)
    (same : dividend * otherDivisor = other * divisor) :
    format.round dividend divisor = format.round other otherDivisor := by
  rw [← round_scale format dividend divisor otherDivisor otherPositive, same,
    Nat.mul_comm divisor otherDivisor, round_scale format other otherDivisor divisor positive]

end Format

namespace Binary

theorem same_parts {format : Format} (x y : Binary format) (sign : x.negative = y.negative)
    (size : x.magnitude = y.magnitude) : x = y := by
  obtain ⟨_, _, _⟩ := x
  obtain ⟨_, _, _⟩ := y
  simp_all

theorem nearest_negative {format : Format} (negative : Bool) (dividend divisor : Nat) :
    (nearest negative dividend divisor : Binary format).negative = negative := rfl

theorem nearest_magnitude {format : Format} (negative : Bool) (dividend divisor : Nat) :
    (nearest negative dividend divisor : Binary format).magnitude = format.round dividend divisor :=
  rfl

theorem of_decimal_nearest (negative : Bool) (decimal : Decimal)
    (digits : Text.allDigits decimal.significant = true) (some : decimal.significant ≠ []) :
    ofDecimal negative decimal = nearest negative decimal.dividend decimal.divisor := by
  by_cases tiny : decimal.point < leastPoint
  · have below := Decimal.dividend_lt decimal digits 331 (by unfold leastPoint at tiny; omega)
    have least : 2 * Format.double.one ≤ 10 ^ 331 := by decide +kernel
    have rounded : Format.double.round decimal.dividend decimal.divisor = 0 := by
      refine Format.round_small _ _ _ (Nat.lt_of_le_of_lt ?_ below)
      calc 2 * (decimal.dividend * Format.double.one)
          = decimal.dividend * (2 * Format.double.one) := by ring
        _ ≤ decimal.dividend * 10 ^ 331 := Nat.mul_le_mul_left _ least
    rw [ofDecimal]
    rw [if_pos (.inr tiny)]
    exact same_parts _ _ rfl rounded.symm
  · by_cases huge : mostPoint < decimal.point
    · have above := Decimal.le_dividend decimal digits some 310 huge
      have most : 2 ^ (Format.double.exponents + Format.double.fractionBits) ≤
          10 ^ 310 * Format.double.one := by decide +kernel
      have rounded : Format.double.round decimal.dividend decimal.divisor =
          Format.double.infinity := by
        refine Format.round_large _ _ _ decimal.divisor_pos ?_
        calc decimal.divisor * 2 ^ (Format.double.exponents + Format.double.fractionBits)
            ≤ decimal.divisor * (10 ^ 310 * Format.double.one) := Nat.mul_le_mul_left _ most
          _ = decimal.divisor * 10 ^ 310 * Format.double.one := (Nat.mul_assoc _ _ _).symm
          _ ≤ decimal.dividend * Format.double.one := Nat.mul_le_mul_right _ above
      rw [ofDecimal]
      rw [if_neg (fun either => either.elim some tiny), if_pos huge]
      exact same_parts _ _ rfl rounded.symm
    · rw [ofDecimal]
      rw [if_neg (fun either => either.elim some tiny), if_neg huge]
      rfl

end Binary
end ParamStore

import Mathlib.Data.Nat.Dist
import ParamStore.Proofs.BinaryRound

set_option autoImplicit false

namespace ParamStore
namespace Format

theorem units_shifted (format : Format) (shift quotient : Nat) (least : format.span ≤ quotient)
    (most : quotient ≤ 2 * format.span) :
    format.units (shift * format.span + quotient) = quotient * 2 ^ shift := by
  have positive := format.span_pos
  rcases Nat.lt_or_eq_of_le most with below | top
  · obtain ⟨fraction, rfl⟩ := Nat.exists_eq_add_of_le least
    have split : shift * format.span + (format.span + fraction) =
        fraction + format.span * (shift + 1) := by ring
    have exponent : (fraction + format.span * (shift + 1)) / format.span = shift + 1 := by
      rw [Nat.add_mul_div_left _ _ positive, Nat.div_eq_of_lt (by omega), Nat.zero_add]
    have rest : (fraction + format.span * (shift + 1)) % format.span = fraction := by
      rw [Nat.add_mul_mod_self_left, Nat.mod_eq_of_lt (by omega)]
    rw [split, units]
    simp [exponent, rest]
  · have split : shift * format.span + quotient = format.span * (shift + 2) := by
      rw [top]
      ring
    rw [split, units]
    simp only [Nat.mul_div_cancel_left _ positive, Nat.mul_mod_right]
    rw [if_neg (by omega), top, Nat.add_zero]
    change format.span * 2 ^ (shift + 1) = _
    ring

theorem units_small (format : Format) (quotient : Nat) (most : quotient ≤ 2 * format.span) :
    format.units quotient = quotient := by
  by_cases least : format.span ≤ quotient
  · simpa using format.units_shifted 0 quotient least most
  · have below : quotient < format.span := Nat.lt_of_not_le least
    rw [units]
    simp [Nat.div_eq_of_lt below, Nat.mod_eq_of_lt below]

theorem div_half_even_bounds (dividend divisor : Nat) :
    dividend / divisor ≤ divHalfEven dividend divisor ∧
      divHalfEven dividend divisor ≤ dividend / divisor + 1 := by
  rw [divHalfEven]
  have odd : dividend / divisor % 2 < 2 := Nat.mod_lt _ (by decide)
  split
  · omega
  · split <;> omega

theorem multiple_dist (dividend divisor quotient : Nat) (positive : 0 < divisor) :
    min (dividend % divisor) (divisor - dividend % divisor) ≤ Nat.dist (quotient * divisor) dividend := by
  have split := Nat.div_add_mod dividend divisor
  unfold Nat.dist
  rcases Nat.lt_or_ge (dividend / divisor) quotient with above | below
  · have least := Nat.mul_le_mul_left divisor above
    rw [Nat.mul_succ, Nat.mul_comm divisor quotient] at least
    omega
  · have most := Nat.mul_le_mul_left divisor below
    rw [Nat.mul_comm divisor quotient] at most
    omega

theorem div_half_even_dist (dividend divisor : Nat) (positive : 0 < divisor) :
    Nat.dist (divHalfEven dividend divisor * divisor) dividend =
      min (dividend % divisor) (divisor - dividend % divisor) := by
  have split := Nat.div_add_mod dividend divisor
  have below := Nat.mod_lt dividend positive
  have lower : dividend / divisor * divisor = divisor * (dividend / divisor) := Nat.mul_comm _ _
  have upper : (dividend / divisor + 1) * divisor = divisor * (dividend / divisor) + divisor := by ring
  unfold Nat.dist
  rw [divHalfEven]
  split
  · omega
  · split
    · omega
    · rcases Nat.mod_two_eq_zero_or_one (dividend / divisor) with even | odd
      · rw [even, Nat.add_zero]
        omega
      · rw [odd]
        omega

theorem div_half_even_nearest (dividend divisor quotient : Nat) (positive : 0 < divisor) :
    Nat.dist (divHalfEven dividend divisor * divisor) dividend ≤
      Nat.dist (quotient * divisor) dividend := by
  rw [div_half_even_dist dividend divisor positive]
  exact multiple_dist dividend divisor quotient positive

theorem div_half_even_tie (dividend divisor quotient : Nat) (positive : 0 < divisor)
    (tie : Nat.dist (divHalfEven dividend divisor * divisor) dividend =
      Nat.dist (quotient * divisor) dividend)
    (other : quotient ≠ divHalfEven dividend divisor) : divHalfEven dividend divisor % 2 = 0 := by
  rw [div_half_even_dist dividend divisor positive] at tie
  have split := Nat.div_add_mod dividend divisor
  have below := Nat.mod_lt dividend positive
  unfold Nat.dist at tie
  have near : quotient = dividend / divisor ∧ 2 * (dividend % divisor) ≤ divisor ∨
      quotient = dividend / divisor + 1 ∧ divisor ≤ 2 * (dividend % divisor) := by
    rcases Nat.lt_trichotomy quotient (dividend / divisor) with less | rfl | more
    · have most := Nat.mul_le_mul_left divisor less
      rw [Nat.mul_succ, Nat.mul_comm divisor quotient] at most
      omega
    · rw [Nat.mul_comm _ divisor] at tie
      exact .inl ⟨rfl, by omega⟩
    · rcases Nat.lt_or_eq_of_le more with far | rfl
      · have least := Nat.mul_le_mul_left divisor far
        rw [Nat.mul_succ, Nat.mul_succ, Nat.mul_comm divisor quotient] at least
        omega
      · rw [Nat.mul_comm _ divisor, Nat.mul_succ] at tie
        exact .inr ⟨rfl, by omega⟩
  rw [divHalfEven] at other ⊢
  rcases near with ⟨rfl, half⟩ | ⟨rfl, half⟩
  · by_cases below : 2 * (dividend % divisor) < divisor
    · exact absurd (if_pos below).symm other
    · rw [if_neg below, if_neg (by omega)]
      omega
  · by_cases above : divisor < 2 * (dividend % divisor)
    · exact absurd (by rw [if_neg (by omega), if_pos above]) other
    · rw [if_neg (by omega), if_neg above] at other ⊢
      omega

def shiftOf (format : Format) (dividend divisor : Nat) : Nat :=
  (dividend * format.one / divisor).log2 - format.fractionBits

def mantissaOf (format : Format) (dividend divisor : Nat) : Nat :=
  divHalfEven (dividend * format.one) (divisor * 2 ^ format.shiftOf dividend divisor)

theorem round_parts (format : Format) (dividend divisor : Nat) :
    format.round dividend divisor = min (format.shiftOf dividend divisor * format.span +
      format.mantissaOf dividend divisor) format.infinity := rfl

-- Where bits are cut, the quotient has more of them than a mantissa.
theorem shift_least (format : Format) (dividend divisor : Nat)
    (some : format.shiftOf dividend divisor ≠ 0) :
    format.span * 2 ^ format.shiftOf dividend divisor ≤ dividend * format.one / divisor := by
  rw [shiftOf] at some ⊢
  generalize dividend * format.one / divisor = quotient at some ⊢
  have nonzero : quotient ≠ 0 := by
    rintro rfl
    simp at some
  calc format.span * 2 ^ (quotient.log2 - format.fractionBits)
      = 2 ^ (format.fractionBits + (quotient.log2 - format.fractionBits)) := (Nat.pow_add 2 _ _).symm
    _ = 2 ^ quotient.log2 := by rw [show format.fractionBits + (quotient.log2 - format.fractionBits) =
          quotient.log2 by omega]
    _ ≤ quotient := Nat.log2_self_le nonzero

theorem mantissa_bounds (format : Format) (dividend divisor : Nat) :
    format.mantissaOf dividend divisor ≤ 2 * format.span ∧
      (format.shiftOf dividend divisor ≠ 0 → format.span ≤ format.mantissaOf dividend divisor) := by
  have bounds := div_half_even_bounds (dividend * format.one)
    (divisor * 2 ^ format.shiftOf dividend divisor)
  rw [← Nat.div_div_eq_div_mul] at bounds
  have shifted := format.shift_least dividend divisor
  rw [mantissaOf]
  have shift : format.shiftOf dividend divisor =
    (dividend * format.one / divisor).log2 - format.fractionBits := rfl
  generalize format.shiftOf dividend divisor = cut at bounds shift shifted ⊢
  generalize dividend * format.one / divisor = quotient at bounds shift shifted
  have span : format.span = 2 ^ format.fractionBits := rfl
  constructor
  · have above : quotient < 2 * format.span * 2 ^ cut := by
      calc quotient < 2 ^ (quotient.log2 + 1) := Nat.lt_log2_self
        _ ≤ 2 ^ (format.fractionBits + cut + 1) := Nat.pow_le_pow_right (by decide) (by omega)
        _ = 2 * format.span * 2 ^ cut := by rw [span]; ring
    have cutBelow := (Nat.div_lt_iff_lt_mul (Nat.two_pow_pos cut)).mpr above
    omega
  · intro some
    have cutLeast := (Nat.le_div_iff_mul_le (Nat.two_pow_pos cut)).mpr (shifted some)
    omega

theorem units_round (format : Format) (dividend divisor : Nat)
    (finite : format.round dividend divisor < format.infinity) :
    format.units (format.round dividend divisor) =
      format.mantissaOf dividend divisor * 2 ^ format.shiftOf dividend divisor := by
  obtain ⟨most, least⟩ := format.mantissa_bounds dividend divisor
  have whole : format.round dividend divisor =
      format.shiftOf dividend divisor * format.span + format.mantissaOf dividend divisor := by
    rw [round_parts] at finite ⊢
    omega
  rw [whole]
  by_cases none : format.shiftOf dividend divisor = 0
  · rw [none, Nat.zero_mul, Nat.zero_add, Nat.pow_zero, Nat.mul_one]
    exact format.units_small _ most
  · exact format.units_shifted _ _ (least none) most

theorem units_multiple (format : Format) (shift magnitude : Nat) :
    (∃ quotient, format.units magnitude = quotient * 2 ^ shift) ∨
      (shift ≠ 0 ∧ format.units magnitude < format.span * 2 ^ shift) := by
  by_cases none : shift = 0
  · exact .inl ⟨format.units magnitude, by rw [none, Nat.pow_zero, Nat.mul_one]⟩
  have below := Nat.mod_lt magnitude format.span_pos
  rw [units]
  split
  · exact .inr ⟨none, Nat.lt_of_lt_of_le below (Nat.le_mul_of_pos_right _ (Nat.two_pow_pos shift))⟩
  · rename_i exponent
    generalize magnitude % format.span = fraction at below ⊢
    generalize magnitude / format.span = power at exponent ⊢
    rcases Nat.lt_or_ge (power - 1) shift with less | least
    · refine .inr ⟨none, ?_⟩
      calc (format.span + fraction) * 2 ^ (power - 1) < 2 * format.span * 2 ^ (power - 1) :=
            Nat.mul_lt_mul_of_pos_right (by omega) (Nat.two_pow_pos _)
        _ = format.span * 2 ^ (power - 1 + 1) := by ring
        _ ≤ format.span * 2 ^ shift := Nat.mul_le_mul_left _ (Nat.pow_le_pow_right (by decide) less)
    · refine .inl ⟨(format.span + fraction) * 2 ^ (power - 1 - shift), ?_⟩
      rw [Nat.mul_assoc, ← Nat.pow_add, Nat.sub_add_cancel least]
      rfl

theorem units_injective (format : Format) (first second : Nat) (firstFinite : first < format.infinity)
    (secondFinite : second < format.infinity) (same : format.units first = format.units second) :
    first = second := by
  rw [← format.round_units first firstFinite, same, format.round_units second secondFinite]

theorem span_even (format : Format) (wide : 0 < format.fractionBits) : format.span % 2 = 0 := by
  obtain ⟨bits, more⟩ := Nat.exists_eq_succ_of_ne_zero (Nat.ne_of_gt wide)
  rw [span, more]
  exact Nat.mul_mod_left (2 ^ bits) 2

theorem round_nearest (format : Format) (dividend divisor magnitude : Nat) (positive : 0 < divisor)
    (wide : 0 < format.fractionBits) (finite : format.round dividend divisor < format.infinity)
    (other : magnitude < format.infinity) :
    Nat.dist (format.units (format.round dividend divisor) * divisor) (dividend * format.one) ≤
        Nat.dist (format.units magnitude * divisor) (dividend * format.one) ∧
      (Nat.dist (format.units (format.round dividend divisor) * divisor) (dividend * format.one) =
          Nat.dist (format.units magnitude * divisor) (dividend * format.one) →
        magnitude ≠ format.round dividend divisor → format.round dividend divisor % 2 = 0) := by
  have value := format.units_round dividend divisor finite
  have scaled (quotient : Nat) : quotient * 2 ^ format.shiftOf dividend divisor * divisor =
      quotient * (divisor * 2 ^ format.shiftOf dividend divisor) := by ring
  have unit : 0 < divisor * 2 ^ format.shiftOf dividend divisor :=
    Nat.mul_pos positive (Nat.two_pow_pos _)
  rcases format.units_multiple (format.shiftOf dividend divisor) magnitude with
    ⟨quotient, same⟩ | ⟨some, small⟩
  · rw [value, same, scaled, scaled]
    refine ⟨div_half_even_nearest _ _ quotient unit, fun tie different => ?_⟩
    have apart : quotient ≠ format.mantissaOf dividend divisor := by
      rintro rfl
      exact different (format.units_injective _ _ other finite (same.trans value.symm))
    have even : format.mantissaOf dividend divisor % 2 = 0 :=
      div_half_even_tie _ _ quotient unit tie apart
    have whole : format.round dividend divisor =
        format.shiftOf dividend divisor * format.span + format.mantissaOf dividend divisor := by
      rw [round_parts] at finite ⊢
      omega
    rw [whole, Nat.add_mod, Nat.mul_mod, format.span_even wide, even, Nat.mul_zero]
  · -- A smaller mantissa is farther off than the least one that the quotient has room for.
    have room : format.span * (divisor * 2 ^ format.shiftOf dividend divisor) ≤
        dividend * format.one := by
      rw [← scaled]
      exact (Nat.le_div_iff_mul_le positive).mp (format.shift_least dividend divisor some)
    have farther : format.units magnitude * divisor <
        format.span * (divisor * 2 ^ format.shiftOf dividend divisor) := by
      rw [← scaled]
      exact Nat.mul_lt_mul_of_pos_right small positive
    have nearer := div_half_even_nearest (dividend * format.one) _ format.span unit
    have less : Nat.dist (format.units (format.round dividend divisor) * divisor)
        (dividend * format.one) < Nat.dist (format.units magnitude * divisor)
          (dividend * format.one) := by
      rw [value, scaled]
      refine Nat.lt_of_le_of_lt nearer ?_
      unfold Nat.dist
      omega
    exact ⟨Nat.le_of_lt less, fun tie => absurd tie (Nat.ne_of_lt less)⟩

theorem units_round_large (format : Format) (dividend divisor : Nat) (positive : 0 < divisor)
    (large : format.span * divisor ≤ dividend)
    (finite : format.round dividend divisor < format.infinity) :
    format.one ∣ format.units (format.round dividend divisor) := by
  have quotient : format.span * format.one ≤ dividend * format.one / divisor := by
    refine (Nat.le_div_iff_mul_le positive).mpr ?_
    calc format.span * format.one * divisor = format.span * divisor * format.one := by ring
      _ ≤ dividend * format.one := Nat.mul_le_mul_right _ large
  have power : format.span * format.one = 2 ^ (format.fractionBits + format.scale) :=
    (Nat.pow_add 2 format.fractionBits format.scale).symm
  rw [power] at quotient
  have nonzero : dividend * format.one / divisor ≠ 0 :=
    Nat.ne_of_gt (Nat.lt_of_lt_of_le (Nat.two_pow_pos _) quotient)
  have bits := (Nat.le_log2 nonzero).mpr quotient
  have shift : format.scale ≤ format.shiftOf dividend divisor := by
    rw [shiftOf]
    omega
  rw [units_round format dividend divisor finite]
  exact Dvd.dvd.mul_left (Nat.pow_dvd_pow 2 shift) _

theorem units_round_small (format : Format) (n : Nat) (small : n < format.span)
    (finite : format.round n 1 < format.infinity) :
    format.units (format.round n 1) = n * format.one := by
  have shift : format.shiftOf n 1 ≤ format.scale := by
    rw [shiftOf]
    rw [Nat.div_one]
    by_cases zero : n = 0
    · simp [zero]
    · have below : n * format.one < 2 ^ (format.fractionBits + format.scale) := by
        rw [Nat.pow_add]
        exact Nat.mul_lt_mul_of_pos_right small format.one_pos
      have bits := (Nat.log2_lt (Nat.mul_ne_zero zero (Nat.ne_of_gt format.one_pos))).mpr below
      omega
  have one : format.one = 2 ^ (format.scale - format.shiftOf n 1) * 2 ^ format.shiftOf n 1 := by
    rw [← Nat.pow_add, Nat.sub_add_cancel shift]
    rfl
  rw [units_round format n 1 finite, mantissaOf, Nat.one_mul]
  generalize format.shiftOf n 1 = cut at one
  rw [one, ← Nat.mul_assoc, div_half_even_exact _ _ (Nat.two_pow_pos cut)]

theorem units_round_whole (format : Format) (dividend divisor n : Nat) (positive : 0 < divisor)
    (whole : dividend = n * divisor) (finite : format.round dividend divisor < format.infinity) :
    format.one ∣ format.units (format.round dividend divisor) := by
  by_cases large : format.span ≤ n
  · exact format.units_round_large dividend divisor positive
      (by rw [whole]; exact Nat.mul_le_mul_right _ large) finite
  · have same : format.round dividend divisor = format.round n 1 := by
      rw [whole, ← format.round_scale n 1 divisor positive, Nat.one_mul]
    rw [same] at finite ⊢
    rw [format.units_round_small n (Nat.lt_of_not_le large) finite]
    exact Nat.dvd_mul_left _ _

end Format
end ParamStore

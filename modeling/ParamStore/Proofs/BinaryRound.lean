import Mathlib.Tactic.Ring
import ParamStore.Number.Shortest

set_option autoImplicit false

namespace ParamStore
namespace Format

theorem div_half_even_scale (dividend divisor factor : Nat) (positive : 0 < factor) :
    divHalfEven (dividend * factor) (divisor * factor) = divHalfEven dividend divisor := by
  have twice : 2 * (dividend % divisor * factor) = 2 * (dividend % divisor) * factor := by ring
  unfold divHalfEven
  simp only [Nat.mul_div_mul_right _ _ positive, Nat.mul_mod_mul_right, twice,
    Nat.mul_lt_mul_right positive]

theorem div_half_even_exact (divisor quotient : Nat) (positive : 0 < divisor) :
    divHalfEven (quotient * divisor) divisor = quotient := by
  rw [divHalfEven]
  simp [Nat.mul_div_cancel quotient positive, positive]

theorem round_scale (format : Format) (dividend divisor factor : Nat) (positive : 0 < factor) :
    format.round (dividend * factor) (divisor * factor) = format.round dividend divisor := by
  have scaled : dividend * factor * format.one = dividend * format.one * factor := by ring
  have shifted : ∀ shift, divisor * factor * Nat.pow 2 shift = divisor * Nat.pow 2 shift * factor :=
    fun shift => by ring
  unfold round
  simp only [scaled, shifted, Nat.mul_div_mul_right _ _ positive,
    div_half_even_scale _ _ factor positive]

theorem one_pos (format : Format) : 0 < format.one := Nat.two_pow_pos _

theorem span_pos (format : Format) : 0 < format.span := Nat.two_pow_pos _

theorem units_log (format : Format) (exponent fraction : Nat) (below : fraction < format.span) :
    ((format.span + fraction) * Nat.pow 2 exponent).log2 = format.fractionBits + exponent := by
  have positive : 0 < (format.span + fraction) * Nat.pow 2 exponent :=
    Nat.mul_pos (Nat.lt_of_lt_of_le format.span_pos (Nat.le_add_right _ _)) (Nat.two_pow_pos _)
  refine (Nat.log2_eq_iff (Nat.ne_of_gt positive)).mpr ⟨?_, ?_⟩
  · rw [Nat.pow_add]
    exact Nat.mul_le_mul_right _ (Nat.le_add_right _ _)
  · have double : 2 ^ (format.fractionBits + exponent + 1) = 2 * format.span * 2 ^ exponent := by
      rw [span]
      change _ = 2 * 2 ^ format.fractionBits * 2 ^ exponent
      ring
    rw [double]
    exact Nat.mul_lt_mul_of_pos_right (by omega) (Nat.two_pow_pos _)

theorem round_units (format : Format) (magnitude : Nat) (finite : magnitude < format.infinity) :
    format.round (format.units magnitude) format.one = magnitude := by
  have parts := Nat.div_add_mod magnitude format.span
  have below := Nat.mod_lt magnitude format.span_pos
  have scaled : format.units magnitude * format.one / format.one = format.units magnitude :=
    Nat.mul_div_cancel _ format.one_pos
  rw [round]
  simp only [scaled]
  by_cases subnormal : magnitude / format.span = 0
  · have small : magnitude < format.span := by
      rw [subnormal] at parts
      omega
    have value : format.units magnitude = magnitude := by
      rw [units]
      simp [subnormal, Nat.mod_eq_of_lt small]
    have shift : magnitude.log2 - format.fractionBits = 0 := by
      by_cases zero : magnitude = 0
      · simp [zero]
      · have bits : magnitude.log2 < format.fractionBits := (Nat.log2_lt zero).mpr small
        omega
    rw [value, shift]
    have exact := div_half_even_exact format.one magnitude format.one_pos
    simp only [Nat.zero_mul, Nat.zero_add, Nat.pow_eq, Nat.pow_zero, Nat.mul_one, exact]
    exact Nat.min_eq_left (Nat.le_of_lt finite)
  · have value : format.units magnitude =
        (format.span + magnitude % format.span) * Nat.pow 2 (magnitude / format.span - 1) := by
      rw [units]
      simp [subnormal]
    have shift : (format.units magnitude).log2 - format.fractionBits =
        magnitude / format.span - 1 := by
      rw [value, units_log format _ _ below]
      omega
    have aligned : format.units magnitude * format.one = (format.span + magnitude % format.span) *
        (format.one * Nat.pow 2 (magnitude / format.span - 1)) := by
      rw [value]
      ring
    have exact := div_half_even_exact (format.one * Nat.pow 2 (magnitude / format.span - 1))
      (format.span + magnitude % format.span) (Nat.mul_pos format.one_pos (Nat.two_pow_pos _))
    rw [shift, aligned, exact]
    have whole : (magnitude / format.span - 1) * format.span + format.span =
        format.span * (magnitude / format.span) := by
      rw [← Nat.succ_mul, Nat.succ_eq_add_one, Nat.sub_add_cancel (Nat.pos_of_ne_zero subnormal),
        Nat.mul_comm]
    have same : (magnitude / format.span - 1) * format.span +
        (format.span + magnitude % format.span) = magnitude := by omega
    rw [same]
    exact Nat.min_eq_left (Nat.le_of_lt finite)

theorem round_small (format : Format) (dividend divisor : Nat)
    (small : 2 * (dividend * format.one) < divisor) : format.round dividend divisor = 0 := by
  have quotient : dividend * format.one / divisor = 0 := Nat.div_eq_of_lt (by omega)
  have rest : dividend * format.one % divisor = dividend * format.one := Nat.mod_eq_of_lt (by omega)
  rw [round]
  simp only [quotient, Nat.log2_zero, Nat.zero_sub, Nat.zero_mul, Nat.zero_add, Nat.pow_eq,
    Nat.pow_zero, Nat.mul_one]
  rw [divHalfEven]
  simp [quotient, rest, small]

theorem round_large (format : Format) (dividend divisor : Nat) (positive : 0 < divisor)
    (large : divisor * 2 ^ (format.exponents + format.fractionBits) ≤ dividend * format.one) :
    format.round dividend divisor = format.infinity := by
  have quotient : 2 ^ (format.exponents + format.fractionBits) ≤ dividend * format.one / divisor :=
    (Nat.le_div_iff_mul_le positive).mpr (by rwa [Nat.mul_comm] at large)
  have nonzero : dividend * format.one / divisor ≠ 0 :=
    Nat.ne_of_gt (Nat.lt_of_lt_of_le (Nat.two_pow_pos _) quotient)
  have bits := (Nat.le_log2 nonzero).mpr quotient
  rw [round]
  refine Nat.min_eq_right ?_
  have shift : format.exponents ≤ (dividend * format.one / divisor).log2 - format.fractionBits := by
    omega
  exact Nat.le_trans (Nat.mul_le_mul_right format.span shift) (Nat.le_add_right _ _)

end Format
end ParamStore

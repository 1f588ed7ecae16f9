import Mathlib.Data.List.Induction
import ParamStore.Proofs.NumberTexts

set_option autoImplicit false

namespace ParamStore
namespace Text

theorem digit_char_value (c : Char) (digit : c.isDigit = true) :
    Nat.digitChar (c.toNat - '0'.toNat) = c := by
  have bounds := Char.isDigit_iff_toNat.mp digit
  have small := digit_value c digit
  have zero : '0'.toNat = 48 := rfl
  refine Char.toNat_inj.mp ?_
  rw [Nat.toNat_digitChar_of_lt_ten (by omega)]
  omega

theorem of_nat_to_nat (digits : Text) (present : digits ≠ []) (head : digits.head? ≠ some '0')
    (all : digits.allDigits = true) : ofNat (toNat digits) = digits := by
  induction digits using List.reverseRecOn with
  | nil => exact absurd rfl present
  | append_singleton front last ih =>
    obtain ⟨frontAll, lastDigit⟩ := (all_digits_append front [last]).mp all
    have digit := (all_digits_iff [last]).mp lastDigit last (List.mem_singleton_self last)
    have small := digit_value last digit
    have single : Nat.toDigits 10 (last.toNat - '0'.toNat) = [last] := by
      rw [Nat.toDigits_of_lt_base (by omega), digit_char_value last digit]
    have value : toNat (front ++ [last]) = 10 * toNat front + (last.toNat - '0'.toNat) := by
      unfold toNat
      rw [Nat.ofDigitChars_append, Nat.ofDigitChars_cons, Nat.ofDigitChars_nil]
    rw [value]
    cases front with
    | nil => simpa [ofNat, toNat] using single
    | cons first rest =>
      have nonzero : first ≠ '0' := by simpa using head
      have firstDigit := (all_digits_iff _).mp frontAll first (List.mem_cons_self ..)
      have positive : 0 < toNat (first :: rest) :=
        Nat.lt_of_lt_of_le (Nat.pow_pos (by decide)) (le_to_nat first rest firstDigit nonzero)
      have front := ih (List.cons_ne_nil _ _) (by simpa using nonzero) frontAll
      rw [ofNat] at front ⊢
      rw [← Nat.toDigits_append_toDigits (by decide) positive (by omega), front, single]

theorem to_nat_drop_zeros (digits : Text) :
    toNat (digits.dropWhile (· == '0')) = toNat digits := by
  induction digits with
  | nil => rfl
  | cons first rest ih =>
    by_cases zero : first = '0'
    · rw [List.dropWhile_cons_of_pos (by simpa using zero), ih, to_nat_cons, zero]
      simp
    · rw [List.dropWhile_cons_of_neg (by simpa using zero)]

theorem drop_zeros_digits (digits : Text) (all : digits.allDigits = true) :
    allDigits (digits.dropWhile (· == '0')) = true := by
  rw [all_digits_iff] at all ⊢
  exact fun c member => all c ((List.dropWhile_sublist _).subset member)

theorem drop_zeros_head (digits : Text) : (digits.dropWhile (· == '0')).head? ≠ some '0' := by
  intro head
  have first := List.head?_dropWhile_not (· == '0') digits
  rw [head] at first
  cases first

theorem drop_zeros_value (digits : Text) (all : digits.allDigits = true) :
    digits.dropWhile (· == '0') = if toNat digits = 0 then [] else ofNat (toNat digits) := by
  by_cases none : digits.dropWhile (· == '0') = []
  · have zero : toNat digits = 0 := by rw [← to_nat_drop_zeros, none]; rfl
    rw [if_pos zero, none]
  · have digitsAll := drop_zeros_digits digits all
    have head := drop_zeros_head digits
    have back := of_nat_to_nat _ none head digitsAll
    rw [to_nat_drop_zeros] at back
    rw [if_neg, back]
    intro zero
    rw [zero] at back
    rw [← back] at head
    exact head rfl

end Text

theorem integer_text_value (negative : Bool) (digits : Text) (all : digits.allDigits = true) :
    integerText negative digits = encodeInt (signedValue negative digits) := by
  have size : (signedValue negative digits).natAbs = digits.toNat := by
    cases negative <;> simp [signedValue]
  have left := Text.drop_zeros_value digits all
  have right := Text.drop_zeros_value (Text.ofNat digits.toNat) (Text.of_nat_digits _)
  rw [Text.to_nat_of_nat] at right
  rw [encodeInt, size, integerText, integerText, left, right]
  by_cases zero : digits.toNat = 0
  · simp only [zero, if_true]
  · have sign : decide (signedValue negative digits < 0) = negative := by
      cases negative <;> simp [signedValue]
      omega
    rw [sign]

theorem w128_count_lt (places : Nat) (long : Decimal.mostPlaces ≤ places) :
    Width.w128.count < 10 ^ places := by
  have most : Width.w128.count < 10 ^ Decimal.mostPlaces := by decide +kernel
  exact Nat.lt_of_lt_of_le most (Nat.pow_le_pow_right (by decide) long)

namespace Decimal

def leading (decimal : Decimal) : Nat :=
  (decimal.whole ++ decimal.fraction).length - decimal.significant.length

theorem point_place (decimal : Decimal) :
    decimal.point = decimal.whole.length + decimal.exponent - decimal.leading := rfl

theorem clamped_place (decimal : Decimal) :
    decimal.clamped.point = decimal.whole.length + decimal.clamped.exponent - decimal.leading := rfl

theorem clamped_cases (decimal : Decimal) :
    decimal.clamped = decimal ∨
    ((mostExponent : Int) < decimal.exponent ∧ decimal.clamped.exponent = mostExponent) ∨
    (decimal.exponent < -(mostExponent : Int) ∧
      decimal.clamped.exponent = -(mostExponent : Int)) := by
  by_cases above : (mostExponent : Int) < decimal.exponent
  · exact .inr (.inl ⟨above, by simp [clamped, above]⟩)
  · by_cases below : decimal.exponent < -(mostExponent : Int)
    · exact .inr (.inr ⟨below, by simp [clamped, above, below]⟩)
    · exact .inl (by simp [clamped, above, below])

-- An exponent is cut only where the point is out of reach of the digits anyway.
theorem magnitude_clamped (text : Text) (decimal : Decimal)
    (left : decimal.leading + mostPlaces < decimal.whole.length + mostExponent)
    (right : decimal.whole.length ≤ mostExponent) :
    decimal.clamped.magnitude text = decimal.magnitude text := by
  have kept : decimal.clamped.significant = decimal.significant := rfl
  have place := decimal.point_place
  have clampedPlace := decimal.clamped_place
  rcases decimal.clamped_cases with same | ⟨above, cut⟩ | ⟨below, cut⟩
  · rw [same]
  · have places : ¬ decimal.point ≤ 0 ∧ ¬ decimal.clamped.point ≤ 0 := by omega
    have long : mostPlaces < decimal.point.toNat ∧ mostPlaces < decimal.clamped.point.toNat := by omega
    rw [magnitude, magnitude]
    simp only [kept, places, long, if_true, if_false]
  · have near : decimal.point ≤ 0 ∧ decimal.clamped.point ≤ 0 := by omega
    rw [magnitude, magnitude]
    simp only [kept, near, if_true]

end Decimal

-- Only the size of an integer decides whether it can be read back.
theorem magnitude_shown (text : Text) (number : Digits) (proper : number.Proper) (decimal : Decimal)
    (zeros : Nat) (digits : decimal.significant = number.digits ++ List.replicate zeros '0')
    (point : decimal.point = number.point) (whole : number.point = number.digits.length) :
    decimal.magnitude text = if number.digits.toNat < Width.w128.count
      then .ok number.digits.toNat else .error (.tooLarge text .integer) := by
  have places : decimal.point.toNat = number.digits.length := by omega
  obtain ⟨first, rest, same, nonzero⟩ := proper.head
  have some : decimal.significant ≠ [] := by simp [digits, same]
  have positive : ¬ decimal.point ≤ 0 := by
    rw [point, whole, same, List.length_cons]
    omega
  rw [Decimal.magnitude]
  simp only [some, positive, places, if_false]
  by_cases long : Decimal.mostPlaces < number.digits.length
  · have digit := (Text.all_digits_iff _).mp proper.all first (by simp [same])
    have least := Text.le_to_nat first rest digit nonzero
    rw [← same] at least
    have large := w128_count_lt rest.length (Nat.le_of_lt_succ (by simpa [same] using long))
    rw [if_pos long, if_neg (by omega)]
  · have behind : (decimal.significant.drop number.digits.length).any (· != '0') = false := by
      simp [digits]
    have front : decimal.significant.take number.digits.length = number.digits := by simp [digits]
    have scale : number.digits.length - decimal.significant.length = 0 := by simp [digits]
    rw [if_neg long, behind, front, scale]
    simp

theorem decode_magnitude_encode (n : Int) :
    decodeMagnitude (encodeInt n) = if n.natAbs < Width.w128.count
      then .ok (decide (n < 0), n.natAbs) else .error (.tooLarge (encodeInt n) .integer) := by
  have stripped := Text.drop_zeros_value (Text.ofNat n.natAbs) (Text.of_nat_digits _)
  rw [Text.to_nat_of_nat] at stripped
  by_cases zero : n = 0
  · subst zero
    decide +kernel
  · rw [if_neg (by omega)] at stripped
    cases same : Text.ofNat n.natAbs with
    | nil => exact absurd same (Text.of_nat_ne_nil _)
    | cons first rest =>
      rw [same] at stripped
      obtain ⟨body, decimal, text, proper, written, whole, short, place⟩ :=
        Digits.integer_text_written (decide (n < 0)) (first :: rest) (same ▸ Text.of_nat_digits _)
          first rest stripped
      obtain ⟨digits, point⟩ := Digits.significant_point _ proper decimal 0 0 (by simpa using whole)
        (by simpa using place)
      have reach : Decimal.mostPlaces + mostPlainDigits < Decimal.mostExponent := by decide +kernel
      have clamped := Decimal.magnitude_clamped (encodeInt n) decimal
        (by simp only [Decimal.leading, digits, whole, List.replicate_zero, List.append_nil]; omega)
        (by omega)
      obtain ⟨mark, behind, head, digit⟩ := Decimal.written_head body decimal written
      have split := Text.split_signed [if decide (n < 0) then '-' else '+'] body (decide (n < 0))
        (by by_cases negative : n < 0 <;> simp [negative]) mark behind head digit
      have word : body ≠ Text.infinity := by
        rintro rfl
        cases head
        cases digit
      have value : Text.toNat (first :: rest) = n.natAbs := by rw [← same, Text.to_nat_of_nat]
      have size := magnitude_shown (encodeInt n) _ proper decimal 0 digits point (by simp)
      simp only [value] at size
      rw [← same] at text
      have encoded : encodeInt n = [if decide (n < 0) then '-' else '+'] ++ body := text
      rw [decodeMagnitude]
      rw [← encoded] at split
      simp only [split, word, if_false, Decimal.written_read body decimal written,
        clamped, size]
      split <;> rfl

theorem decode_int_encode (n : Int) :
    decodeInt (encodeInt n) = if IntType.i128.Holds n then .ok n
      else .error (.tooLarge (encodeInt n) .integer) := by
  rw [decodeInt, decode_magnitude_encode]
  by_cases small : n.natAbs < Width.w128.count
  · have signed : (if n < 0 then -(n.natAbs : Int) else n.natAbs) = n := by
      split <;> omega
    simp only [small, if_true, bind, Except.bind, decide_eq_true_eq, signed]
  · have outside : ¬ IntType.i128.Holds n := by
      have half : IntType.i128.least = -(Width.w128.count / 2 : Nat) := rfl
      have top : IntType.i128.greatest = (Width.w128.count / 2 : Nat) - 1 := rfl
      rw [IntType.Holds, half, top]
      omega
    simp [small, outside, bind, Except.bind]

theorem decode_uint_encode (n : Int) :
    (IntType.u128.Holds n → decodeUInt (encodeInt n) = .ok n.natAbs) ∧
      (¬ IntType.u128.Holds n → ∃ target,
        decodeUInt (encodeInt n) = .error (.tooLarge (encodeInt n) target)) := by
  have least : IntType.u128.least = 0 := rfl
  have greatest : IntType.u128.greatest = (Width.w128.count : Int) - 1 := rfl
  rw [decodeUInt, decode_magnitude_encode, IntType.Holds, least, greatest]
  by_cases small : n.natAbs < Width.w128.count
  · rw [if_pos small]
    constructor
    · rintro ⟨positive, _⟩
      have plain : ¬ n < 0 := by omega
      simp [plain, bind, Except.bind]
    · intro outside
      have negative : n < 0 := by omega
      have some : n ≠ 0 := by omega
      exact ⟨_, by simp [negative, some, bind, Except.bind]; rfl⟩
  · rw [if_neg small]
    constructor
    · rintro ⟨positive, most⟩
      omega
    · intro _
      exact ⟨_, rfl⟩

theorem IntType.least_le_greatest (type : IntType) : type.least ≤ type.greatest := by
  obtain ⟨signed, width⟩ := type
  cases signed <;> cases width <;> decide +kernel

theorem IntType.holds_least (type : IntType) : type.Holds type.least :=
  ⟨Int.le_refl _, type.least_le_greatest⟩

theorem IntType.holds_greatest (type : IntType) : type.Holds type.greatest :=
  ⟨type.least_le_greatest, Int.le_refl _⟩

theorem IntType.holds_i128 (type : IntType) (other : type ≠ .u128) (n : Int) (inside : type.Holds n) :
    IntType.i128.Holds n := by
  obtain ⟨least, greatest⟩ := inside
  have bounds : IntType.i128.least ≤ type.least ∧ type.greatest ≤ IntType.i128.greatest := by
    obtain ⟨signed, width⟩ := type
    cases signed <;> cases width <;> first | exact absurd rfl other | decide +kernel
  exact ⟨Int.le_trans bounds.1 least, Int.le_trans greatest bounds.2⟩

theorem decode_sized_encode (type : IntType) (n : Int) :
    (∀ inside : type.Holds n, decodeSized type (encodeInt n) = .ok ⟨n, inside⟩) ∧
      (¬ type.Holds n → ∃ target,
        decodeSized type (encodeInt n) = .error (.tooLarge (encodeInt n) target)) := by
  rw [decodeSized]
  by_cases widest : type = .u128
  · subst widest
    obtain ⟨fits, excess⟩ := decode_uint_encode n
    constructor
    · intro inside
      have positive : (n.natAbs : Int) = n := Int.natAbs_of_nonneg inside.1
      simp [fits inside, Except.map, bind, Except.bind, positive, inside]
    · intro outside
      obtain ⟨target, failed⟩ := excess outside
      exact ⟨target, by simp [failed, Except.map, bind, Except.bind]⟩
  · rw [if_neg widest, decode_int_encode]
    constructor
    · intro inside
      simp [IntType.holds_i128 type widest n inside, bind, Except.bind, inside]
    · intro outside
      by_cases wide : IntType.i128.Holds n
      · exact ⟨_, by simp [wide, bind, Except.bind, outside]; rfl⟩
      · exact ⟨_, by simp [wide, bind, Except.bind]; rfl⟩

end ParamStore

import ParamStore.Proofs.FloatText
import ParamStore.Proofs.PathTexts

set_option autoImplicit false

namespace ParamStore

def Binary.unsignedZero (x : Double) : Double := if x.magnitude = 0 then .zero false else x

theorem encode_decode (x : Double) (number : x.isNaN = false) :
    ∃ text, encodeFloat x = .ok text ∧ x.Form text ∧ decodeFloat text = .ok x.unsignedZero ∧
      encodeFloat x.unsignedZero = .ok text := by
  obtain ⟨text, encoded, _⟩ := Binary.encode_form x number
  obtain ⟨y, decoded, again, form⟩ := encode_float_stable x text encoded
  have same := (decode_form x text form).symm.trans decoded
  cases same
  exact ⟨text, encoded, form, decode_form x text form, again⟩

-- Characters that separate the parts of a complex number, or are trimmed off them.
def Complex.splits (c : Char) : Bool := c == ',' || Text.isBlank c

theorem Text.digit_splits (c : Char) (digit : c.isDigit = true) : Complex.splits c = false := by
  rw [Complex.splits, Text.digit_no_blank c digit, Bool.or_false]
  exact beq_eq_false_iff_ne.mpr (by rintro rfl; cases digit)

theorem Text.any_splits (text : Text) (none : text.any Complex.splits = false) :
    ∀ c ∈ text, Complex.splits c = false :=
  fun c member => Bool.eq_false_iff.mpr (List.any_eq_false.mp none c member)

namespace Decimal

theorem digits_splits (digits : Text) (all : digits.allDigits = true) :
    ∀ c ∈ digits, Complex.splits c = false :=
  fun c member => Text.digit_splits c ((Text.all_digits_iff _).mp all c member)

theorem written_splits (text : Text) (decimal : Decimal) (written : Written text decimal) :
    ∀ c ∈ text, Complex.splits c = false := by
  obtain ⟨whole, fraction, exponent⟩ := decimal
  obtain ⟨_, all, point, power, rfl, pointPart, powerPart⟩ := written
  simp only [List.forall_mem_append]
  refine ⟨digits_splits _ all, ?_, ?_⟩
  · cases pointPart with
    | none => simp
    | some _ _ digits => exact List.forall_mem_cons.mpr ⟨rfl, digits_splits _ digits⟩
  · cases powerPart with
    | none => simp
    | some sign digits _ signed _ all =>
      refine List.forall_mem_cons.mpr ⟨rfl, List.forall_mem_append.mpr ⟨?_, digits_splits digits all⟩⟩
      rcases signed with rfl | rfl | rfl <;> exact Text.any_splits _ rfl

end Decimal

theorem Decimal.sign_form (sign : Text) (negative : Bool)
    (signed : if negative then sign = ['-'] else sign = [] ∨ sign = ['+']) :
    SignForm sign negative := by
  cases negative with
  | true =>
    have minus : sign = ['-'] := by simpa using signed
    rw [minus]
    exact .minus
  | false =>
    have either : sign = [] ∨ sign = ['+'] := by simpa using signed
    rcases either with rfl | rfl
    · exact .none
    · exact .plus

theorem Binary.form_splits (x : Double) (text : Text) (form : x.Form text) :
    ∀ c ∈ text, Complex.splits c = false := by
  cases form with
  | infinite => cases x.negative <;> exact Text.any_splits _ rfl
  | zero => exact Text.any_splits _ rfl
  | decimal sign body number signed _ shown =>
    obtain ⟨decimal, _, written, _, _⟩ := shown
    refine List.forall_mem_append.mpr ⟨?_, decimal.written_splits body written⟩
    have form := Decimal.sign_form sign x.negative signed
    generalize x.negative = negative at form
    cases form <;> exact Text.any_splits _ rfl

namespace Complex

theorem split_join (re im : Text) (reWhole : ∀ c ∈ re, splits c = false)
    (imWhole : ∀ c ∈ im, splits c = false) : split (join re im) = .ok (re, im) := by
  have no_comma (text : Text) (whole : ∀ c ∈ text, splits c = false) : ∀ c ∈ text, c ≠ ',' := by
    rintro _ member rfl
    cases whole ',' member
  have no_blank (text : Text) (whole : ∀ c ∈ text, splits c = false) :
      ∀ c ∈ text, Text.isBlank c = false := fun c member => (Bool.or_eq_false_iff.mp (whole c member)).2
  have inside : inside? (join re im) = some (re ++ ',' :: im) := by
    have joined : join re im = '(' :: (re ++ ',' :: im ++ [')']) := by simp [join]
    rw [joined, inside?, List.getLast?_concat, if_pos rfl, List.dropLast_concat]
  have commas : (re ++ ',' :: im).count ',' = 1 := by
    have none (text : Text) (whole : ∀ c ∈ text, splits c = false) : text.count ',' = 0 :=
      List.count_eq_zero.mpr fun member => no_comma text whole ',' member rfl
    rw [List.count_append, List.count_cons_self, none re reWhole, none im imWhole]
  obtain ⟨front, back⟩ := run_ends (p := (· != ',')) re (',' :: im)
    (fun c member => bne_iff_ne.mpr (no_comma re reWhole c member)) (by rintro c ⟨⟩; rfl)
  rw [split]
  simp only [inside, commas, if_true, front, back, List.tail_cons]
  rw [Text.trim_plain re (no_blank re reWhole), Text.trim_plain im (no_blank im imWhole)]

end Complex

theorem float_round_trip :
    (∀ x : Double, x.isNaN = false → ∃ text, encodeFloat x = .ok text ∧
      decodeFloat text = .ok x.unsignedZero ∧ encodeFloat x.unsignedZero = .ok text) ∧
    ∀ value : Complex, value.re.isNaN = false → value.im.isNaN = false →
      ∃ re im, encodeComplex value = .ok (re, im) ∧
        decodeComplex (Complex.join re im) = .ok ⟨value.re.unsignedZero, value.im.unsignedZero⟩ ∧
        encodeComplex ⟨value.re.unsignedZero, value.im.unsignedZero⟩ = .ok (re, im) := by
  constructor
  · intro x number
    obtain ⟨text, encoded, _, decoded, again⟩ := encode_decode x number
    exact ⟨text, encoded, decoded, again⟩
  · intro value reNumber imNumber
    obtain ⟨re, reEncoded, reForm, reDecoded, reAgain⟩ := encode_decode value.re reNumber
    obtain ⟨im, imEncoded, imForm, imDecoded, imAgain⟩ := encode_decode value.im imNumber
    have split := Complex.split_join re im (value.re.form_splits re reForm)
      (value.im.form_splits im imForm)
    refine ⟨re, im, ?_, ?_, ?_⟩
    · simp [encodeComplex, reEncoded, imEncoded, bind, Except.bind, pure, Except.pure]
    · simp [decodeComplex, split, reDecoded, imDecoded, bind, Except.bind, pure, Except.pure]
    · simp [encodeComplex, reAgain, imAgain, bind, Except.bind, pure, Except.pure]

theorem float_round_trip_tiny :
    (Binary.ofBits64 0x3E7AD7F29ABCAF48).isNaN = false ∧
      encodeFloat (.ofBits64 0x3E7AD7F29ABCAF48) = .ok "1e-7".toList ∧
      decodeFloat "1e-7".toList = .ok (.ofBits64 0x3E7AD7F29ABCAF48) ∧
      encodeComplex ⟨.zero true, .infinity true⟩ = .ok ("+0".toList, "-infinity".toList) ∧
      decodeComplex "(+0,-infinity)".toList = .ok ⟨.zero false, .infinity true⟩ := by
  have number : (Binary.ofBits64 0x3E7AD7F29ABCAF48).isNaN = false := by decide +kernel
  have tiny : encodeFloat (.ofBits64 0x3E7AD7F29ABCAF48) = .ok "1e-7".toList := by decide +kernel
  have parts : encodeComplex ⟨.zero true, .infinity true⟩ =
      .ok ("+0".toList, "-infinity".toList) := by decide +kernel
  obtain ⟨text, encoded, decoded, _⟩ := float_round_trip.1 (.ofBits64 0x3E7AD7F29ABCAF48) number
  obtain ⟨re, im, joined, read, _⟩ := float_round_trip.2 ⟨.zero true, .infinity true⟩
    (by decide +kernel) (by decide +kernel)
  cases tiny.symm.trans encoded
  cases parts.symm.trans joined
  exact ⟨number, tiny, decoded, parts, read⟩

end ParamStore

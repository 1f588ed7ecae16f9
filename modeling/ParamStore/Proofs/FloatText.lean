import ParamStore.Proofs.DecimalLayouts

set_option autoImplicit false

namespace ParamStore
namespace Digits

def dividend (number : Digits) : Nat :=
  Text.toNat number.digits * Nat.pow 10 (number.point - number.digits.length).toNat

def divisor (number : Digits) : Nat :=
  Nat.pow 10 (-(number.point - number.digits.length : Int)).toNat

theorem divisor_pos (number : Digits) : 0 < number.divisor := Nat.pow_pos (by decide)

theorem trailing_fraction (number : Digits) (decimal : Decimal) (zeros : Nat)
    (digits : decimal.significant = number.digits ++ List.replicate zeros '0')
    (point : decimal.point = number.point) :
    decimal.dividend * number.divisor = number.dividend * decimal.divisor := by
  rw [Decimal.dividend, Decimal.divisor, dividend, divisor]
  rw [digits, point, Text.to_nat_zeros, List.length_append, List.length_replicate]
  have powers : zeros + (number.point - (number.digits.length + zeros : Nat)).toNat +
      (-(number.point - number.digits.length : Int)).toNat =
      (number.point - number.digits.length).toNat +
        (-(number.point - (number.digits.length + zeros : Nat) : Int)).toNat := by omega
  have scaled := congrArg (fun power => Text.toNat number.digits * 10 ^ power) powers
  simp only [Nat.pow_add, ← Nat.mul_assoc] at scaled
  simpa only [Nat.pow_eq] using scaled

theorem significant_digits (number : Digits) (proper : number.Proper) (decimal : Decimal)
    (zeros : Nat) (digits : decimal.significant = number.digits ++ List.replicate zeros '0') :
    Text.allDigits decimal.significant = true ∧ decimal.significant ≠ [] := by
  rw [digits]
  refine ⟨(Text.all_digits_append _ _).mpr ⟨proper.all, Text.all_digits_replicate zeros⟩, ?_⟩
  simp [digits_ne_nil number proper]

theorem of_nat_proper (count : Nat) (scale : Nat) (positive : 0 < count) :
    Proper (ofNat count (-scale)) ∧
      (ofNat count (-scale)).dividend * Nat.pow 10 scale =
        count * (ofNat count (-scale)).divisor := by
  obtain ⟨zeros, split⟩ := drop_zeros_append (Text.ofNat count)
  have value := Text.to_nat_of_nat count
  have all := Text.of_nat_digits count
  have length := congrArg List.length split
  rw [split, Text.to_nat_zeros] at value
  rw [split, Text.all_digits_append] at all
  rw [List.length_append, List.length_replicate] at length
  constructor
  · refine ⟨all.1, ?_⟩
    cases kept : dropZeros (Text.ofNat count) with
    | nil =>
      rw [kept] at value
      simp only [Text.toNat, Nat.ofDigitChars_nil, Nat.zero_mul] at value
      omega
    | cons first rest =>
      refine ⟨first, rest, kept, ?_⟩
      rw [kept] at split
      exact Text.of_nat_head count positive first _ split
  · rw [dividend, divisor, ofNat]
    simp only [length]
    generalize dropZeros (Text.ofNat count) = kept at *
    have powers : ((kept.length + zeros : Nat) + -(scale : Int) - kept.length).toNat + scale =
        zeros + (-((kept.length + zeros : Nat) + -(scale : Int) - kept.length)).toNat := by omega
    have scaled := congrArg (fun power => Text.toNat kept * 10 ^ power) powers
    simp only [Nat.pow_add, ← Nat.mul_assoc, value] at scaled
    simpa only [Nat.pow_eq] using scaled

end Digits

namespace Format

theorem pow_ten_pos (power : Nat) : 0 < Nat.pow 10 power := Nat.pow_pos (by decide)

theorem tenths_round (format : Format) (magnitude : Nat) (finite : magnitude < format.infinity) :
    format.round (format.tenths magnitude) (Nat.pow 10 format.scale) = magnitude := by
  have ten : Nat.pow 10 format.scale = format.one * Nat.pow 5 format.scale := by
    rw [one]
    simp only [Nat.pow_eq]
    rw [← Nat.mul_pow]
  have positive : 0 < Nat.pow 5 format.scale := Nat.pow_pos (by decide)
  rw [tenths]
  rw [ten, round_scale format (format.units magnitude) format.one _ positive]
  exact round_units format magnitude finite

theorem shortest_round (format : Format) (ties : Ties) (magnitude : Nat)
    (finite : magnitude < format.infinity) :
    ∃ count, format.shortest ties magnitude = Digits.ofNat count (-format.scale) ∧
      format.round count (Nat.pow 10 format.scale) = magnitude := by
  rw [shortest]
  refine ⟨_, rfl, ?_⟩
  cases found : (List.range mostDigits).findSome? fun places => format.shortened? ties magnitude
    (format.tenths magnitude) (Text.ofNat (format.tenths magnitude)).length (places + 1) with
  | none => exact tenths_round format magnitude finite
  | some count =>
    obtain ⟨places, _, short⟩ := List.exists_of_findSome?_eq_some found
    have rounds := List.find?_some short
    rw [roundsTo] at rounds
    exact beq_iff_eq.mp rounds

theorem round_zero (format : Format) (divisor : Nat) (positive : 0 < divisor) :
    format.round 0 divisor = 0 :=
  round_small format 0 divisor (by omega)

end Format

namespace Binary

-- How the text of a number shows it: a word for infinity, a plain zero, or a sign and digits that round
-- to its magnitude.
inductive Form (x : Double) : Text → Prop where
  | infinite (size : x.magnitude = Format.double.infinity) :
      Form x ((if x.negative then '-' else '+') :: Text.infinity)
  | zero (size : x.magnitude = 0) : Form x ['+', '0']
  | decimal (sign body : Text) (number : Digits)
      (signed : if x.negative then sign = ['-'] else sign = [] ∨ sign = ['+'])
      (proper : number.Proper) (shown : number.Shown body) (positive : x.magnitude ≠ 0)
      (finite : x.magnitude < Format.double.infinity)
      (rounds : Format.double.round number.dividend number.divisor = x.magnitude) :
      Form x (sign ++ body)

theorem whole_form (x : Double) (finite : x.magnitude < Format.double.infinity)
    (integral : x.units % Format.double.one = 0) :
    Form x (integerText x.negative (Text.ofNat x.whole)) := by
  have value : x.whole * Format.double.one = x.units := Nat.div_mul_cancel (Nat.dvd_of_mod_eq_zero integral)
  have back := Format.round_units Format.double x.magnitude finite
  have all := Text.of_nat_digits x.whole
  by_cases none : x.whole = 0
  · have size : x.magnitude = 0 := by
      rw [none, Nat.zero_mul] at value
      rw [units] at value
      rw [← value, Format.round_zero _ _ (Format.one_pos _)] at back
      exact back.symm
    rw [none]
    exact .zero size
  · have positive : 0 < x.whole := Nat.pos_of_ne_zero none
    cases same : Text.ofNat x.whole with
    | nil => exact absurd same (Text.of_nat_ne_nil _)
    | cons first rest =>
      have nonzero := Text.of_nat_head x.whole positive first rest same
      have kept : (first :: rest).dropWhile (· == '0') = first :: rest :=
        List.dropWhile_cons_of_neg (by simpa using nonzero)
      rw [same] at all
      obtain ⟨body, text, proper, shown⟩ :=
        Digits.integer_text_shown x.negative (first :: rest) all first rest kept
      have digits : Text.toNat (first :: rest) = x.whole := by
        rw [← same, Text.to_nat_of_nat]
      rw [text]
      refine .decimal [if x.negative then '-' else '+'] body _ ?_ proper shown ?_ finite ?_
      · cases x.negative <;> simp
      · intro size
        have nothing : x.units = 0 := by
          rw [units]
          rw [size]
          decide +kernel
        rw [nothing] at value
        exact none ((Nat.mul_eq_zero.mp value).resolve_right (Nat.ne_of_gt (Format.one_pos _)))
      · rw [← back]
        refine Format.round_cross _ _ _ _ _ (Digits.divisor_pos _) (Format.one_pos _) ?_
        rw [Digits.dividend, Digits.divisor]
        simp only [digits, List.length_cons, Int.natCast_add, Int.natCast_one, Int.sub_self,
          Int.toNat_zero, Int.neg_zero, Nat.pow_eq, Nat.pow_zero, Nat.mul_one]
        exact value

theorem fraction_form (x : Double) (finite : x.magnitude < Format.double.infinity)
    (positive : x.magnitude ≠ 0) :
    Form x (signed x.negative
      (if x.magnitude < leastPlain then
        (Format.double.shortest .away x.magnitude).scientific Text.ofInt
      else (Format.double.shortest .away x.magnitude).positional)) := by
  obtain ⟨count, same, back⟩ := Format.shortest_round Format.double .away x.magnitude finite
  have some : 0 < count := by
    by_contra none
    have zero : count = 0 := by omega
    rw [zero, Format.round_zero _ _ (Format.pow_ten_pos _)] at back
    exact positive back.symm
  obtain ⟨proper, value⟩ := Digits.of_nat_proper count Format.double.scale some
  rw [same]
  have rounds : Format.double.round (Digits.ofNat count (-Format.double.scale)).dividend
      (Digits.ofNat count (-Format.double.scale)).divisor = x.magnitude := by
    rw [← back]
    exact Format.round_cross _ _ _ _ _ (Digits.divisor_pos _) (Format.pow_ten_pos _) value
  have text : ∀ body, signed x.negative body = (if x.negative then ['-'] else []) ++ body := by
    intro body
    rw [signed]
    cases x.negative <;> rfl
  rw [text]
  refine .decimal _ _ _ ?_ proper ?_ positive finite rounds
  · cases x.negative <;> simp
  · split
    · exact Digits.scientific_shown _ proper
    · exact Digits.positional_shown _ proper

theorem encode_form (x : Double) (number : x.isNaN = false) :
    ∃ text, encodeFloat x = .ok text ∧ Form x text := by
  rw [encodeFloat]
  rw [number]
  by_cases infinite : x.magnitude = Format.double.infinity
  · have size : x.isInfinite = true := by simpa [isInfinite] using infinite
    exact ⟨_, by simp [size], .infinite infinite⟩
  · have size : x.isInfinite = false := by simpa [isInfinite] using infinite
    have atMost : x.magnitude ≤ Format.double.infinity := by simpa [isNaN] using number
    have finite : x.magnitude < Format.double.infinity := by omega
    by_cases integral : x.units % Format.double.one = 0
    · have whole : x.isIntegral = true := by simp [isIntegral, isFinite, finite, integral]
      exact ⟨_, by simp [size, whole], whole_form x finite integral⟩
    · have broken : x.isIntegral = false := by simp [isIntegral, integral]
      have positive : x.magnitude ≠ 0 := by
        intro zero
        refine integral ?_
        rw [units]
        rw [zero]
        decide +kernel
      exact ⟨_, by simp [size, broken], fraction_form x finite positive⟩

end Binary

theorem Text.split_signed (sign body : Text) (negative : Bool)
    (signed : if negative then sign = ['-'] else sign = [] ∨ sign = ['+']) (first : Char)
    (rest : Text) (same : body = first :: rest) (digit : first.isDigit = true) :
    Text.splitSign (sign ++ body) = (negative, body) := by
  have plain := Decimal.digit_no_mark first digit
  subst same
  cases negative with
  | true =>
    have minus : sign = ['-'] := by simpa using signed
    simp [minus, splitSign]
  | false =>
    have either : sign = [] ∨ sign = ['+'] := by simpa using signed
    rcases either with rfl | rfl
    · simp [splitSign, plain.2.2.1, plain.2.2.2]
    · simp [splitSign]

theorem decode_zero : decodeFloat ['+', '0'] = .ok (.zero false) := by
  have read : Decimal.ofText? ['0'] = some ⟨['0'], [], 0⟩ := by decide
  have value : Binary.ofDecimal false ⟨['0'], [], 0⟩ = .zero false := rfl
  have size : (Binary.zero false : Double).isInfinite = false := by decide +kernel
  simp [decodeFloat, Text.splitSign, Text.infinity, read, value, size]

theorem decode_infinity (negative : Bool) :
    decodeFloat ((if negative then '-' else '+') :: Text.infinity) = .ok (.infinity negative) := by
  cases negative <;> simp [decodeFloat, Text.splitSign]

theorem shown_value (x : Double) (number : Digits) (proper : number.Proper) (decimal : Decimal)
    (zeros : Nat) (digits : decimal.significant = number.digits ++ List.replicate zeros '0')
    (point : decimal.point = number.point)
    (rounds : Format.double.round number.dividend number.divisor = x.magnitude) :
    Binary.ofDecimal x.negative decimal = x := by
  obtain ⟨all, some⟩ := Digits.significant_digits number proper decimal zeros digits
  have same : Format.double.round decimal.dividend decimal.divisor = x.magnitude :=
    (Format.round_cross _ _ _ _ _ decimal.divisor_pos number.divisor_pos
      (Digits.trailing_fraction number decimal zeros digits point)).trans rounds
  rw [Binary.of_decimal_nearest x.negative decimal all some]
  exact Binary.same_parts _ _ (Binary.nearest_negative _ _ _)
    ((Binary.nearest_magnitude _ _ _).trans same)

theorem decode_shown (x : Double) (sign body : Text) (number : Digits)
    (signed : if x.negative then sign = ['-'] else sign = [] ∨ sign = ['+'])
    (proper : number.Proper) (shown : number.Shown body)
    (finite : x.magnitude < Format.double.infinity)
    (rounds : Format.double.round number.dividend number.divisor = x.magnitude) :
    decodeFloat (sign ++ body) = .ok x := by
  obtain ⟨decimal, zeros, written, digits, point⟩ := shown
  obtain ⟨first, rest, head, digit⟩ := Decimal.written_head body decimal written
  have split := Text.split_signed sign body x.negative signed first rest head digit
  have read := Decimal.written_read body decimal written
  have word : body ≠ Text.infinity := by
    rintro rfl
    rw [Text.infinity] at head
    injection head with same
    rw [← same] at digit
    cases digit
  have value := shown_value x number proper decimal zeros digits point rounds
  have size : x.isInfinite = false := by
    have different := Nat.ne_of_lt finite
    simpa [Binary.isInfinite] using different
  rw [decodeFloat]
  simp only [split, word, if_false, read, value, size, Bool.false_eq_true]

theorem decode_form (x : Double) (text : Text) (form : x.Form text) :
    decodeFloat text = .ok (if x.magnitude = 0 then .zero false else x) := by
  cases form with
  | infinite size =>
    have some : x.magnitude ≠ 0 := by
      rw [size]
      decide +kernel
    rw [if_neg some, decode_infinity]
    exact congrArg Except.ok (Binary.same_parts _ _ rfl size.symm)
  | zero size =>
    rw [if_pos size]
    exact decode_zero
  | decimal sign body number signed proper shown positive finite rounds =>
    rw [if_neg positive]
    exact decode_shown x sign body number signed proper shown finite rounds

theorem Binary.form_zero (x : Double) (text : Text) (form : x.Form text) (size : x.magnitude = 0) :
    text = ['+', '0'] := by
  cases form with
  | infinite infinite =>
    rw [size] at infinite
    exact absurd infinite (by decide +kernel)
  | zero => rfl
  | decimal _ _ _ _ _ _ positive => exact absurd size positive

theorem encode_zero : encodeFloat (.zero false) = .ok ['+', '0'] := by
  obtain ⟨text, encoded, form⟩ := Binary.encode_form (.zero false) (by decide +kernel)
  rw [encoded, Binary.form_zero _ text form rfl]

theorem encode_float_stable (x : Double) (text : Text) (written : encodeFloat x = .ok text) :
    ∃ y, decodeFloat text = .ok y ∧ encodeFloat y = .ok text ∧ x.Form text := by
  have number : x.isNaN = false := by
    rw [encodeFloat] at written
    cases nan : x.isNaN with
    | false => rfl
    | true => simp [nan] at written
  obtain ⟨made, encoded, form⟩ := Binary.encode_form x number
  have same : made = text := Except.ok.inj (encoded.symm.trans written)
  subst same
  refine ⟨_, decode_form x made form, ?_, form⟩
  by_cases size : x.magnitude = 0
  · rw [if_pos size, encode_zero, Binary.form_zero x made form size]
  · rw [if_neg size]
    exact written

end ParamStore

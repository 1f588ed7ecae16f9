import ParamStore.Proofs.DecimalValues

set_option autoImplicit false

namespace ParamStore
namespace Decimal

theorem form_length (text : Text) (decimal : Decimal) (form : Form text decimal) :
    decimal.whole.length + decimal.fraction.length ≤ text.length := by
  obtain ⟨_, _, point, power, same, pointForm, _⟩ := form
  have shorter : decimal.fraction.length ≤ point.length := by
    obtain ⟨_, _, tail⟩ := point_form_digits point decimal.fraction pointForm
    rw [← tail, List.length_tail]
    exact Nat.sub_le _ _
  rw [same, List.length_append, List.length_append]
  omega

theorem significant_all (text : Text) (decimal : Decimal) (form : Form text decimal) :
    Text.allDigits decimal.significant = true := by
  obtain ⟨all, _, point, _, _, pointForm, _⟩ := form
  obtain ⟨fraction, _⟩ := point_form_digits point decimal.fraction pointForm
  exact Text.drop_zeros_digits _ ((Text.all_digits_append _ _).mpr ⟨all, fraction⟩)

theorem leading_le (decimal : Decimal) :
    decimal.leading ≤ decimal.whole.length + decimal.fraction.length := by
  rw [leading, List.length_append]
  exact Nat.sub_le _ _

-- In a text of this length the place of the point is far from the limits of 64 bits.
theorem clamped_fits (text : Text) (decimal : Decimal) (form : Form text decimal)
    (short : text.length < 2 ^ 60) :
    IntType.i64.Holds (decimal.whole.length + decimal.clamped.exponent) ∧
      IntType.i64.Holds decimal.clamped.point := by
  have length := form_length text decimal form
  have zeros := leading_le decimal
  have most : mostExponent = 2 ^ 61 - 1 := by decide +kernel
  have least : IntType.i64.least = -2 ^ 63 := by decide +kernel
  have greatest : IntType.i64.greatest = 2 ^ 63 - 1 := by decide +kernel
  have bounds : -(mostExponent : Int) ≤ decimal.clamped.exponent ∧
      decimal.clamped.exponent ≤ mostExponent := by
    simp only [clamped]
    split
    · omega
    · split <;> omega
  rw [clamped_place, IntType.Holds, IntType.Holds, least, greatest]
  omega

theorem clamped_exact (text body : Text) (decimal : Decimal) (form : Form body decimal)
    (short : body.length < 2 ^ 60) :
    decimal.clamped.magnitude text = decimal.magnitude text := by
  have length := form_length body decimal form
  have zeros := leading_le decimal
  have most : mostExponent = 2 ^ 61 - 1 := by decide +kernel
  have places : mostPlaces = 39 := rfl
  exact magnitude_clamped text decimal (by omega) (by omega)

end Decimal

namespace Text

def Spells (text : Text) (value : ℚ) : Prop :=
  ∃ sign body negative decimal, text = sign ++ body ∧ Decimal.SignForm sign negative ∧
    Decimal.Form body decimal ∧ value = decimal.signed negative

def SpellsInfinity (text : Text) : Prop :=
  ∃ sign negative, Decimal.SignForm sign negative ∧ text = sign ++ infinity

-- A text that is no number, or a number with a fraction, except where it is too large anyway.
def Mismatched (text : Text) : Prop :=
  ((∀ value, ¬ Spells text value) ∧ ¬ SpellsInfinity text) ∨
    ∃ value, Spells text value ∧ (∀ n : Int, value ≠ n) ∧ |value| < 10 ^ 39

theorem form_head (text : Text) (decimal : Decimal) (form : Decimal.Form text decimal) (c : Char)
    (head : text.head? = some c) : c ≠ '+' ∧ c ≠ '-' := by
  obtain ⟨all, some, point, power, same, pointForm, _⟩ := form
  obtain ⟨_, mark, tail⟩ := Decimal.point_form_digits point decimal.fraction pointForm
  rw [same] at head
  cases whole : decimal.whole with
  | cons first rest =>
    rw [whole] at all head
    cases head
    exact (Decimal.digit_plain c rest all).2.2
  | nil =>
    rw [whole] at some head
    cases point with
    | nil =>
      have none : decimal.fraction = [] := tail.symm
      simp [none] at some
    | cons first rest =>
      cases head
      rw [mark c rfl]
      decide

theorem spells_iff (text : Text) (value : ℚ) :
    Spells text value ↔ ∃ decimal, Decimal.ofText? (splitSign text).2 = some decimal ∧
      value = decimal.signed (splitSign text).1 := by
  constructor
  · intro spelled
    obtain ⟨sign, body, negative, decimal, same, signed, form, worth⟩ := spelled
    have split := Decimal.sign_form_split sign body negative signed (form_head body decimal form)
    rw [same, split]
    exact ⟨decimal, (Decimal.of_text_iff body decimal).mpr form, worth⟩
  · intro read
    obtain ⟨decimal, read, worth⟩ := read
    obtain ⟨sign, same, signed⟩ := Decimal.split_sign_form text
    exact ⟨sign, _, _, decimal, same, signed, (Decimal.of_text_iff _ decimal).mp read, worth⟩

theorem spells_infinity_iff (text : Text) : SpellsInfinity text ↔ (splitSign text).2 = infinity := by
  constructor
  · intro spelled
    obtain ⟨sign, negative, signed, same⟩ := spelled
    have plain : ∀ c, infinity.head? = some c → c ≠ '+' ∧ c ≠ '-' := by
      intro c head
      cases head
      decide
    rw [same, Decimal.sign_form_split sign infinity negative signed plain]
  · intro word
    obtain ⟨sign, same, signed⟩ := Decimal.split_sign_form text
    rw [word] at same
    exact ⟨sign, _, signed, same⟩

theorem spells_unique (text : Text) (value other : ℚ) (spelled : Spells text value)
    (otherSpelled : Spells text other) : value = other := by
  obtain ⟨decimal, read, worth⟩ := (spells_iff text value).mp spelled
  obtain ⟨again, reread, otherWorth⟩ := (spells_iff text other).mp otherSpelled
  rw [read] at reread
  cases reread
  rw [worth, otherWorth]

theorem mismatched_broken (text : Text) (mismatched : Mismatched text) (n : Int) :
    ¬ Spells text n := by
  intro spelled
  rcases mismatched with ⟨none, _⟩ | ⟨value, other, broken, _⟩
  · exact none n spelled
  · exact broken n (spells_unique text value n other spelled)

theorem infinity_spells (text : Text) (word : (splitSign text).2 = infinity) (value : ℚ) :
    ¬ Spells text value := by
  intro spelled
  obtain ⟨decimal, read, _⟩ := (spells_iff text value).mp spelled
  rw [word] at read
  cases read

end Text

theorem decode_magnitude_cases (text : Text) (short : text.length < 2 ^ 60) :
    (∃ negative n, decodeMagnitude text = .ok (negative, n) ∧ n < Width.w128.count ∧
      text.Spells ((if negative then -(n : Int) else n : Int) : ℚ)) ∨
    (∃ cause, decodeMagnitude text = .error (.typeMismatch cause) ∧ text.Mismatched) ∨
    (decodeMagnitude text = .error (.tooLarge text .integer) ∧ ¬ text.Mismatched ∧
      ∀ value, text.Spells value → (Width.w128.count : ℚ) ≤ |value|) := by
  obtain ⟨sign, same, _⟩ := Decimal.split_sign_form text
  have length := congrArg List.length same
  rw [List.length_append] at length
  rw [decodeMagnitude]
  by_cases word : (Text.splitSign text).2 = Text.infinity
  · have none := Text.infinity_spells text word
    refine .inr (.inr ⟨by simp [word], ?_, fun value spelled => absurd spelled (none value)⟩)
    intro mismatched
    rcases mismatched with ⟨_, other⟩ | ⟨value, spelled, _⟩
    · exact other ((Text.spells_infinity_iff text).mpr word)
    · exact none value spelled
  cases read : Decimal.ofText? (Text.splitSign text).2 with
  | none =>
    refine .inr (.inl ⟨.malformed .number text, by simp [word, read], .inl ⟨?_, ?_⟩⟩)
    · intro value spelled
      obtain ⟨decimal, found, _⟩ := (Text.spells_iff text value).mp spelled
      rw [read] at found
      cases found
    · rwa [Text.spells_infinity_iff]
  | some decimal =>
    have form := (Decimal.of_text_iff _ decimal).mp read
    have exact := Decimal.clamped_exact text _ decimal form (by omega)
    have spelled := (Text.spells_iff text _).mpr ⟨decimal, read, rfl⟩
    simp only [word, if_false, read, exact]
    generalize (Text.splitSign text).1 = negative at spelled ⊢
    have absolute := decimal.abs_signed negative
    rcases decimal.magnitude_size text (Decimal.significant_all _ decimal form) with
      ⟨n, done, fits, whole⟩ | ⟨done, broken, below⟩ | ⟨done, large, either⟩
    · rw [decimal.signed_whole negative n whole] at spelled
      exact .inl ⟨negative, n, by rw [done]; rfl, fits, spelled⟩
    · rw [← absolute] at below
      exact .inr (.inl ⟨.notIntegral text, by rw [done]; rfl,
        .inr ⟨_, spelled, decimal.signed_broken negative broken, below⟩⟩)
    · refine .inr (.inr ⟨by rw [done]; rfl, ?_, ?_⟩)
      · intro mismatched
        rcases mismatched with ⟨none, _⟩ | ⟨value, other, broken, below⟩
        · exact none _ spelled
        · rw [Text.spells_unique text value _ other spelled] at broken below
          rw [absolute] at below
          rcases either with ⟨n, whole⟩ | beyond
          · exact broken _ (decimal.signed_whole negative n whole)
          · exact absurd below (not_lt.mpr beyond)
      · intro value other
        rwa [Text.spells_unique text value _ other spelled, absolute]

theorem IntType.holds_i128_iff (n : Int) : i128.Holds n ↔ -2 ^ 127 ≤ n ∧ n < 2 ^ 127 := by
  have least : i128.least = -2 ^ 127 := by decide +kernel
  have greatest : i128.greatest = 2 ^ 127 - 1 := by decide +kernel
  rw [Holds, least, greatest]
  omega

theorem IntType.holds_u128_iff (n : Nat) : u128.Holds n ↔ n < 2 ^ 128 := by
  have least : u128.least = 0 := rfl
  have greatest : u128.greatest = 2 ^ 128 - 1 := by decide +kernel
  rw [Holds, least, greatest]
  omega

-- What is read of a text by an integer type: the integer it spells, or an error that says why it is
-- none of the type.
inductive ReadExactly (text : Text) (type : IntType) {α : Type} (number : α → Int) :
    Except Error α → Prop where
  | integer (n : α) (spelled : text.Spells (number n)) (fits : type.Holds (number n)) :
      ReadExactly text type number (.ok n)
  | mismatch (cause : Mismatch) (mismatched : text.Mismatched) :
      ReadExactly text type number (.error (.typeMismatch cause))
  | excess (target : Target) (matched : ¬ text.Mismatched)
      (outside : ∀ n : Int, text.Spells n → ¬ type.Holds n) :
      ReadExactly text type number (.error (.tooLarge text target))

theorem decode_int_exactly (text : Text) (short : text.length < 2 ^ 60) :
    ReadExactly text .i128 id (decodeInt text) := by
  have count : Width.w128.count = 2 ^ 128 := by decide +kernel
  rw [decodeInt]
  rcases decode_magnitude_cases text short with
    ⟨negative, size, done, _, spelled⟩ | ⟨cause, done, mismatched⟩ | ⟨done, matched, large⟩
  · simp only [done, bind, Except.bind]
    generalize (if negative then -(size : Int) else size) = n at spelled ⊢
    by_cases fits : IntType.i128.Holds n
    · rw [if_pos fits]
      exact .integer n spelled fits
    · rw [if_neg fits]
      refine .excess _ (fun broken => text.mismatched_broken broken n spelled) ?_
      intro m other
      have same : m = n := by exact_mod_cast text.spells_unique m n other spelled
      rwa [same]
  · rw [done]
    exact .mismatch cause mismatched
  · rw [done]
    refine .excess _ matched ?_
    intro n spelled
    have least := large n spelled
    rw [count, ← Int.cast_abs] at least
    have far : (2 ^ 128 : Int) ≤ |n| := by exact_mod_cast least
    rw [Int.abs_eq_natAbs] at far
    rw [IntType.holds_i128_iff]
    omega

theorem decode_uint_exactly (text : Text) (short : text.length < 2 ^ 60) :
    ReadExactly text .u128 Int.ofNat (decodeUInt text) := by
  have count : Width.w128.count = 2 ^ 128 := by decide +kernel
  have negative_outside (n : Int) (negative : n < 0) : ¬ IntType.u128.Holds n :=
    fun fits => Int.not_le.mpr negative fits.1
  rw [decodeUInt]
  rcases decode_magnitude_cases text short with
    ⟨negative, size, done, fits, spelled⟩ | ⟨cause, done, mismatched⟩ | ⟨done, matched, large⟩
  · simp only [done, bind, Except.bind]
    by_cases below : negative ∧ size ≠ 0
    · rw [if_pos below]
      rw [if_pos below.1] at spelled
      refine .excess _ (fun broken => text.mismatched_broken broken _ spelled) ?_
      intro n other
      have same : n = -(size : Int) := by exact_mod_cast text.spells_unique n _ other spelled
      exact negative_outside n (by omega)
    · have signed : (if negative then -(size : Int) else size) = size := by
        cases negative
        · rfl
        · have zero : size = 0 := by simpa using below
          simp [zero]
      rw [if_neg below]
      rw [signed] at spelled
      rw [count] at fits
      exact .integer size spelled ((IntType.holds_u128_iff size).mpr fits)
  · rw [done]
    exact .mismatch cause mismatched
  · rw [done]
    refine .excess _ matched ?_
    intro n spelled
    have least := large n spelled
    by_cases negative : n < 0
    · exact negative_outside n negative
    · obtain ⟨m, rfl⟩ := Int.eq_ofNat_of_zero_le (Int.not_lt.mp negative)
      rw [count, Int.cast_natCast, Nat.abs_cast] at least
      have far : 2 ^ 128 ≤ m := by exact_mod_cast least
      rw [IntType.holds_u128_iff]
      exact Nat.not_lt_of_le far

namespace ReadExactly

variable {text : Text} {type : IntType} {α : Type} {number : α → Int} {result : Except Error α}

theorem ok_iff (read : ReadExactly text type number result)
    (injective : ∀ n m, number n = number m → n = m) (n : α) :
    result = .ok n ↔ text.Spells (number n) ∧ type.Holds (number n) := by
  cases read with
  | integer m spelled fits =>
    rw [Except.ok.injEq]
    constructor
    · intro same
      rw [← same]
      exact ⟨spelled, fits⟩
    · intro other
      apply injective
      exact_mod_cast text.spells_unique _ _ spelled other.1
  | mismatch cause mismatched => simp [text.mismatched_broken mismatched (number n)]
  | excess target matched outside => simpa using outside (number n)

theorem error_kind (read : ReadExactly text type number result) (error : Error)
    (failed : result = .error error) :
    (text.Mismatched → error.kind = .typeMismatch) ∧
      (¬ text.Mismatched → error.kind = .numberTooLarge) := by
  cases read with
  | integer m => cases failed
  | mismatch cause mismatched =>
    cases failed
    exact ⟨fun _ => rfl, fun matched => absurd mismatched matched⟩
  | excess target matched =>
    cases failed
    exact ⟨fun mismatched => absurd mismatched matched, fun _ => rfl⟩

end ReadExactly

-- No place of a point leaves the range of 64 bits on the way.
theorem decode_exact (text : Text) (short : text.length < 2 ^ 60) :
    (∀ n : Int, decodeInt text = .ok n ↔ text.Spells n ∧ -2 ^ 127 ≤ n ∧ n < 2 ^ 127) ∧
    (∀ n : Nat, decodeUInt text = .ok n ↔ text.Spells n ∧ n < 2 ^ 128) ∧
    (∀ error, decodeInt text = .error error ∨ decodeUInt text = .error error →
      (text.Mismatched → error.kind = .typeMismatch) ∧
      (¬ text.Mismatched → error.kind = .numberTooLarge)) ∧
    (∀ decimal, Decimal.ofText? (Text.splitSign text).2 = some decimal →
      IntType.i64.Holds (decimal.whole.length + decimal.clamped.exponent) ∧
      IntType.i64.Holds decimal.clamped.point) := by
  have signed := decode_int_exactly text short
  have unsigned := decode_uint_exactly text short
  refine ⟨fun n => ?_, fun n => ?_, fun error failed => ?_, fun decimal read => ?_⟩
  · rw [← IntType.holds_i128_iff]
    exact signed.ok_iff (fun _ _ same => same) n
  · rw [← IntType.holds_u128_iff, ← Int.cast_natCast]
    exact unsigned.ok_iff (fun _ _ same => Int.ofNat.inj same) n
  · rcases failed with failed | failed
    · exact signed.error_kind error failed
    · exact unsigned.error_kind error failed
  · obtain ⟨sign, same, _⟩ := Decimal.split_sign_form text
    have length := congrArg List.length same
    rw [List.length_append] at length
    exact Decimal.clamped_fits _ decimal ((Decimal.of_text_iff _ decimal).mp read) (by omega)

theorem decode_exact_shifted :
    (decodeInt "-00.0250e+04".toList = .ok (-250) ∧ Text.Spells "-00.0250e+04".toList (-250)) ∧
    (decodeUInt ".25E1".toList = .error (.typeMismatch (.notIntegral ".25E1".toList)) ∧
      Text.Mismatched ".25E1".toList) ∧
    (decodeInt "1e99999999999999999999".toList =
        .error (.tooLarge "1e99999999999999999999".toList .integer) ∧
      ¬ Text.Mismatched "1e99999999999999999999".toList) ∧
    decodeUInt "-0.e99999999999999999999".toList = .ok 0 ∧
      Text.Spells "-0.e99999999999999999999".toList 0 := by
  have shifted : decodeInt "-00.0250e+04".toList = .ok (-250) := by decide +kernel
  have broken : decodeUInt ".25E1".toList =
      .error (.typeMismatch (.notIntegral ".25E1".toList)) := by decide +kernel
  have large : decodeInt "1e99999999999999999999".toList =
      .error (.tooLarge "1e99999999999999999999".toList .integer) := by decide +kernel
  have zero : decodeUInt "-0.e99999999999999999999".toList = .ok 0 := by decide +kernel
  refine ⟨⟨shifted, ?_⟩, ⟨broken, ?_⟩, ⟨large, ?_⟩, zero, ?_⟩
  · have spelled := ((decode_exact "-00.0250e+04".toList (by decide)).1 (-250)).mp shifted
    exact_mod_cast spelled.1
  · by_contra matched
    cases ((decode_exact ".25E1".toList (by decide)).2.2.1 _ (.inr broken)).2 matched
  · intro mismatched
    cases ((decode_exact "1e99999999999999999999".toList (by decide)).2.2.1 _ (.inl large)).1
      mismatched
  · have spelled := ((decode_exact "-0.e99999999999999999999".toList (by decide)).2.1 0).mp zero
    exact_mod_cast spelled.1

end ParamStore

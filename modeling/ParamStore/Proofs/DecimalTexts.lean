import ParamStore.Number
import ParamStore.Proofs.BinaryRound
import ParamStore.Proofs.DigitTexts

set_option autoImplicit false

namespace ParamStore

def signedValue (negative : Bool) (digits : Text) : Int :=
  if negative then -(digits.toNat : Int) else digits.toNat

namespace Decimal

inductive PointPart : Text → Text → Prop where
  | none : PointPart [] []
  | some (digits : Text) (nonempty : digits ≠ []) (all : digits.allDigits = true) :
      PointPart ('.' :: digits) digits

inductive PowerPart : Text → Int → Prop where
  | none : PowerPart [] 0
  | some (sign digits : Text) (exponent : Int) (signed : sign = [] ∨ sign = ['+'] ∨ sign = ['-'])
      (nonempty : digits ≠ []) (all : digits.allDigits = true)
      (value : exponent = if sign = ['-'] then -(digits.toNat : Int) else digits.toNat) :
      PowerPart ('e' :: (sign ++ digits)) exponent

structure Written (text : Text) (decimal : Decimal) : Prop where
  nonempty : decimal.whole ≠ []
  all : decimal.whole.allDigits = true
  parts : ∃ point power, text = decimal.whole ++ (point ++ power) ∧
    PointPart point decimal.fraction ∧ PowerPart power decimal.exponent

theorem digit_no_mark (c : Char) (digit : c.isDigit = true) :
    isExponentMark c = false ∧ c ≠ '.' ∧ c ≠ '+' ∧ c ≠ '-' := by
  have bounds := Char.isDigit_iff_toNat.mp digit
  refine ⟨?_, ?_, ?_, ?_⟩
  · by_contra mark
    have either : c = 'e' ∨ c = 'E' := by
      simpa [isExponentMark, ← or_iff_not_imp_left] using mark
    rcases either with rfl | rfl
    · cases digit
    · cases digit
  all_goals
    rintro rfl
    cases digit

theorem digit_plain (first : Char) (rest : Text) (all : Text.allDigits (first :: rest) = true) :
    isExponentMark first = false ∧ first ≠ '.' ∧ first ≠ '+' ∧ first ≠ '-' :=
  digit_no_mark first ((Text.all_digits_iff _).mp all first (List.mem_cons_self ..))

inductive SignForm : Text → Bool → Prop where
  | none : SignForm [] false
  | plus : SignForm ['+'] false
  | minus : SignForm ['-'] true

inductive PointForm : Text → Text → Prop where
  | none : PointForm [] []
  | some (digits : Text) (all : digits.allDigits = true) : PointForm ('.' :: digits) digits

inductive PowerForm : Text → Int → Prop where
  | none : PowerForm [] 0
  | some (mark : Char) (sign digits : Text) (negative : Bool) (exponent : Int)
      (marked : isExponentMark mark = true) (signed : SignForm sign negative)
      (nonempty : digits ≠ []) (all : digits.allDigits = true)
      (value : exponent = signedValue negative digits) :
      PowerForm (mark :: (sign ++ digits)) exponent

-- There is a digit on at least one side of the point.
structure Form (text : Text) (decimal : Decimal) : Prop where
  all : decimal.whole.allDigits = true
  some : decimal.whole ≠ [] ∨ decimal.fraction ≠ []
  parts : ∃ point power, text = decimal.whole ++ (point ++ power) ∧
    PointForm point decimal.fraction ∧ PowerForm power decimal.exponent

theorem sign_form_split (sign body : Text) (negative : Bool) (form : SignForm sign negative)
    (plain : ∀ c, body.head? = some c → c ≠ '+' ∧ c ≠ '-') :
    Text.splitSign (sign ++ body) = (negative, body) := by
  cases form with
  | none =>
    cases body with
    | nil => rfl
    | cons first rest => simp [Text.splitSign, plain first rfl]
  | plus => simp [Text.splitSign]
  | minus => simp [Text.splitSign]

theorem split_sign_form (text : Text) :
    ∃ sign, text = sign ++ (Text.splitSign text).2 ∧ SignForm sign (Text.splitSign text).1 := by
  cases text with
  | nil => exact ⟨[], rfl, .none⟩
  | cons first rest =>
    by_cases minus : first = '-'
    · exact ⟨['-'], by simp [Text.splitSign, minus], by simpa [Text.splitSign, minus] using .minus⟩
    · by_cases plus : first = '+'
      · exact ⟨['+'], by simp [Text.splitSign, plus], by simpa [Text.splitSign, plus] using .plus⟩
      · exact ⟨[], by simp [Text.splitSign, minus, plus],
          by simpa [Text.splitSign, minus, plus] using .none⟩

theorem point_form_digits (point fraction : Text) (form : PointForm point fraction) :
    fraction.allDigits = true ∧ (∀ c, point.head? = some c → c = '.') ∧ point.tail = fraction := by
  cases form with
  | none => exact ⟨rfl, by simp, rfl⟩
  | some digits all => exact ⟨all, by simp [eq_comm], rfl⟩

theorem point_form_plain (point fraction : Text) (form : PointForm point fraction) (c : Char)
    (member : c ∈ point) : isExponentMark c = false := by
  cases form with
  | none => cases member
  | some digits all =>
    rcases List.mem_cons.mp member with rfl | later
    · rfl
    · exact (digit_no_mark c ((Text.all_digits_iff _).mp all c later)).1

theorem power_form_head (power : Text) (exponent : Int) (form : PowerForm power exponent) (c : Char)
    (head : power.head? = some c) : isExponentMark c = true := by
  cases form with
  | none => cases head
  | some mark sign digits negative exponent marked =>
    cases head
    exact marked

theorem exponent_iff (text : Text) (exponent : Int) :
    exponent? text = some exponent ↔ ∃ sign digits negative, text = sign ++ digits ∧
      SignForm sign negative ∧ digits ≠ [] ∧ digits.allDigits = true ∧
        exponent = signedValue negative digits := by
  constructor
  · intro read
    obtain ⟨sign, same, form⟩ := split_sign_form text
    rw [exponent?] at read
    obtain ⟨⟨nonempty, all⟩, value⟩ := Option.ite_none_right_eq_some.mp read
    cases value
    exact ⟨sign, _, _, same, form, nonempty, all, rfl⟩
  · rintro ⟨sign, digits, negative, rfl, form, nonempty, all, rfl⟩
    have plain : ∀ c, digits.head? = some c → c ≠ '+' ∧ c ≠ '-' := by
      intro c head
      obtain ⟨rest, rfl⟩ := List.head?_eq_some_iff.mp head
      exact (digit_plain c rest all).2.2
    rw [exponent?]
    simp [sign_form_split sign digits negative form plain, nonempty, all, signedValue]

theorem mantissa_iff (text whole fraction : Text) :
    mantissa? text = some (whole, fraction) ↔ ∃ point, text = whole ++ point ∧
      PointForm point fraction ∧ whole.allDigits = true ∧ (whole ≠ [] ∨ fraction ≠ []) := by
  constructor
  · intro read
    rw [mantissa?] at read
    obtain ⟨⟨all, digits, nonempty⟩, same⟩ := Option.ite_none_right_eq_some.mp read
    cases same
    refine ⟨text.dropWhile (· != '.'), List.takeWhile_append_dropWhile.symm, ?_, all, nonempty⟩
    cases behind : text.dropWhile (· != '.') with
    | nil => exact .none
    | cons first rest =>
      have stop := List.head?_dropWhile_not (· != '.') text
      rw [behind] at stop digits
      have mark : first = '.' := by simpa using stop
      subst mark
      exact .some rest digits
  · rintro ⟨point, rfl, form, all, nonempty⟩
    obtain ⟨digits, mark, tail⟩ := point_form_digits point fraction form
    have inside : ∀ c ∈ whole, (c != '.') = true := by
      intro c member
      simpa using (digit_no_mark c ((Text.all_digits_iff _).mp all c member)).2.1
    obtain ⟨front, back⟩ := run_ends whole point inside fun c head => by simp [mark c head]
    rw [mantissa?]
    simp only [front, back, tail]
    rw [if_pos ⟨all, digits, nonempty⟩]

theorem of_text_iff (text : Text) (decimal : Decimal) :
    ofText? text = some decimal ↔ Form text decimal := by
  constructor
  · intro read
    rw [ofText?] at read
    have whole := List.takeWhile_append_dropWhile (p := fun c => !isExponentMark c) (l := text)
    cases mantissa : mantissa? (text.takeWhile fun c => !isExponentMark c) with
    | none => simp [mantissa] at read
    | some parts =>
      obtain ⟨point, front, form, all, nonempty⟩ := (mantissa_iff _ parts.1 parts.2).mp mantissa
      cases behind : text.dropWhile fun c => !isExponentMark c with
      | nil =>
        simp only [mantissa, behind, Option.some.injEq] at read
        subst read
        rw [behind, front, List.append_nil] at whole
        exact ⟨all, nonempty, point, [], by simp [← whole], form, .none⟩
      | cons mark power =>
        have marked : isExponentMark mark = true := by
          have stop := List.head?_dropWhile_not (fun c => !isExponentMark c) text
          rw [behind] at stop
          simpa using stop
        simp only [mantissa, behind, Option.map_eq_some_iff] at read
        obtain ⟨exponent, power, rfl⟩ := read
        obtain ⟨sign, digits, negative, rfl, signed, some, digitsAll, value⟩ :=
          (exponent_iff _ exponent).mp power
        rw [behind, front, List.append_assoc] at whole
        exact ⟨all, nonempty, point, _, whole.symm, form,
          .some mark sign digits negative exponent marked signed some digitsAll value⟩
  · rintro ⟨all, nonempty, point, power, rfl, pointForm, powerForm⟩
    obtain ⟨fractionAll, mark, tail⟩ := point_form_digits point decimal.fraction pointForm
    have plain : ∀ c ∈ decimal.whole ++ point, (!isExponentMark c) = true := by
      intro c member
      rcases List.mem_append.mp member with front | back
      · simp [(digit_no_mark c ((Text.all_digits_iff _).mp all c front)).1]
      · simp [point_form_plain point decimal.fraction pointForm c back]
    have stops : ∀ c, power.head? = some c → (!isExponentMark c) = false := by
      intro c head
      simp [power_form_head power decimal.exponent powerForm c head]
    obtain ⟨front, back⟩ := run_ends (decimal.whole ++ point) power plain stops
    have mantissa := (mantissa_iff (decimal.whole ++ point) decimal.whole decimal.fraction).mpr
      ⟨point, rfl, pointForm, all, nonempty⟩
    rw [ofText?]
    simp only [← List.append_assoc, front, back, mantissa]
    obtain ⟨whole, fraction, exponent⟩ := decimal
    cases powerForm with
    | none => rfl
    | some mark sign digits negative exponent marked signed digitsNonempty digitsAll value =>
      have read := (exponent_iff (sign ++ digits) exponent).mpr
        ⟨sign, digits, negative, rfl, signed, digitsNonempty, digitsAll, value⟩
      simp only [read, Option.map_some]

theorem written_form (text : Text) (decimal : Decimal) (written : Written text decimal) :
    Form text decimal := by
  obtain ⟨nonempty, all, point, power, same, pointPart, powerPart⟩ := written
  obtain ⟨whole, fraction, exponent⟩ := decimal
  refine ⟨all, .inl nonempty, point, power, same, ?_, ?_⟩
  · cases pointPart with
    | none => exact .none
    | some _ _ digitsAll => exact .some _ digitsAll
  · cases powerPart with
    | none => exact .none
    | some sign digits exponent signed digitsNonempty digitsAll value =>
      rcases signed with rfl | rfl | rfl
      · exact .some 'e' [] digits false exponent rfl .none digitsNonempty digitsAll value
      · exact .some 'e' ['+'] digits false exponent rfl .plus digitsNonempty digitsAll value
      · exact .some 'e' ['-'] digits true exponent rfl .minus digitsNonempty digitsAll value

theorem written_read (text : Text) (decimal : Decimal) (written : Written text decimal) :
    ofText? text = some decimal :=
  (of_text_iff text decimal).mpr (written_form text decimal written)

theorem written_head (text : Text) (decimal : Decimal) (written : Written text decimal) :
    ∃ first rest, text = first :: rest ∧ first.isDigit = true := by
  obtain ⟨nonempty, all, point, power, rfl, _, _⟩ := written
  cases same : decimal.whole with
  | nil => exact absurd same nonempty
  | cons first rest =>
    rw [same] at all
    exact ⟨first, _, rfl, (Text.all_digits_iff _).mp all first (List.mem_cons_self ..)⟩

end Decimal
end ParamStore

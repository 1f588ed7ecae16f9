import ParamStore.Proofs.FloatText

set_option autoImplicit false

namespace ParamStore
namespace Number

inductive Spelled : Text → Prop where
  | infinite (sign : Char) (signed : sign = '+' ∨ sign = '-') : Spelled (sign :: Text.infinity)
  | decimal (sign body : Text) (signed : sign = [] ∨ sign = ['+'] ∨ sign = ['-'])
      (decimal : Decimal) (written : Decimal.Written body decimal) : Spelled (sign ++ body)

theorem zero_spelled : Spelled ['+', '0'] :=
  .decimal ['+'] ['0'] (.inr (.inl rfl)) ⟨['0'], [], 0⟩
    ⟨by simp, rfl, [], [], rfl, .none, .none⟩

theorem form_spelled (x : Double) (text : Text) (form : x.Form text) : Spelled text := by
  cases form with
  | infinite =>
    refine .infinite _ ?_
    cases x.negative
    · exact .inl rfl
    · exact .inr rfl
  | zero => exact zero_spelled
  | decimal sign body number signed proper shown =>
    obtain ⟨decimal, _, written, _, _⟩ := shown
    refine .decimal sign body ?_ decimal written
    cases negative : x.negative with
    | true => exact .inr (.inr (by simpa [negative] using signed))
    | false =>
      have either : sign = [] ∨ sign = ['+'] := by simpa [negative] using signed
      exact either.imp_right .inl

theorem integer_text_spelled (negative : Bool) (digits : Text) (all : digits.allDigits = true) :
    Spelled (integerText negative digits) := by
  cases same : digits.dropWhile (· == '0') with
  | nil =>
    rw [integerText]
    rw [same]
    exact zero_spelled
  | cons first rest =>
    obtain ⟨body, text, _, decimal, _, written, _, _⟩ :=
      Digits.integer_text_shown negative digits all first rest same
    rw [text]
    refine .decimal [if negative then '-' else '+'] body ?_ decimal written
    cases negative
    · exact .inr (.inl rfl)
    · exact .inr (.inr rfl)

theorem literal_digits (literal : Text) (integer : isIntegerLiteral literal = true) :
    (Text.splitSign literal).2.allDigits = true := by
  rw [isIntegerLiteral] at integer
  simp only [Bool.and_eq_true] at integer
  exact integer.2

theorem of_float_ok (x : Double) (number : Number) (made : ofFloat x = .ok number) :
    encodeFloat x = .ok number.text ∧ number.kind = .float := by
  rw [ofFloat] at made
  cases encoded : encodeFloat x with
  | error error =>
    rw [encoded] at made
    cases made
  | ok text =>
    rw [encoded] at made
    cases made
    exact ⟨rfl, rfl⟩

theorem of_literal_cases (literal : Text) (number : Number) (made : ofLiteral literal = .ok number) :
    (isIntegerLiteral literal = true ∧ number = ⟨.integer,
      integerText (Text.splitSign literal).1 (Text.splitSign literal).2⟩) ∨
    (isIntegerLiteral literal = false ∧
      ∃ x, decodeFloat literal = .ok x ∧ ofFloat x = .ok number) := by
  rw [ofLiteral] at made
  cases integer : isIntegerLiteral literal with
  | true =>
    refine .inl ⟨rfl, ?_⟩
    simpa [integer, eq_comm] using made
  | false =>
    refine .inr ⟨rfl, ?_⟩
    cases decoded : decodeFloat literal with
    | error error => simp [integer, decoded, bind, Except.bind] at made
    | ok x =>
      refine ⟨x, rfl, ?_⟩
      cases encoded : encodeFloat x with
      | error error => simp [integer, decoded, encoded, bind, Except.bind] at made
      | ok text =>
        simpa [integer, decoded, encoded, bind, Except.bind, ofFloat, Except.map, pure, Except.pure]
          using made

theorem of_literal_spelled (literal : Text) (number : Number)
    (made : ofLiteral literal = .ok number) : Spelled number.text := by
  rcases of_literal_cases literal number made with ⟨integer, rfl⟩ | ⟨_, x, _, floated⟩
  · exact integer_text_spelled _ _ (literal_digits literal integer)
  · obtain ⟨encoded, _⟩ := of_float_ok x number floated
    obtain ⟨_, _, _, form⟩ := encode_float_stable x number.text encoded
    exact form_spelled x number.text form

-- The text of a number shows which kind it has: a run of digits is read as an integer.
def KeepsKind (number : Number) : Prop :=
  number.kind = .integer ↔ isIntegerLiteral number.text = true

instance (number : Number) : Decidable number.KeepsKind := inferInstanceAs (Decidable (_ ↔ _))

theorem integer_text_zero (negative : Bool) (digits : Text)
    (none : digits.dropWhile (· == '0') = []) : integerText negative digits = ['+', '0'] := by
  rw [integerText]
  rw [none]

theorem integer_text_short (negative : Bool) (digits : Text) (first : Char) (rest : Text)
    (same : digits.dropWhile (· == '0') = first :: rest) (short : rest.length < mostPlainDigits) :
    Text.splitSign (integerText negative digits) = (negative, first :: rest) := by
  have plain : ¬ mostPlainDigits ≤ rest.length := Nat.not_le.mpr short
  rw [integerText]
  rw [same]
  cases negative <;> simp [plain, Text.splitSign]

theorem integer_text_plain_iff (negative : Bool) (digits : Text) (all : digits.allDigits = true) :
    isIntegerLiteral (integerText negative digits) = true ↔
      (digits.dropWhile (· == '0')).length ≤ mostPlainDigits := by
  cases same : digits.dropWhile (· == '0') with
  | nil =>
    rw [integer_text_zero negative digits same]
    decide
  | cons first rest =>
    by_cases long : mostPlainDigits ≤ rest.length
    · constructor
      · intro short
        have pointed : '.' ∈ (Text.splitSign (integerText negative digits)).2 := by
          rw [integerText]
          cases negative <;> simp [same, long, Text.splitSign]
        have digit := (Text.all_digits_iff _).mp (literal_digits _ short) '.' pointed
        cases digit
      · intro few
        rw [List.length_cons] at few
        omega
    · have short : rest.length < mostPlainDigits := Nat.lt_of_not_le long
      have some : Text.allDigits (first :: rest) = true := by
        rw [Text.all_digits_iff] at all ⊢
        intro c member
        rw [← same] at member
        exact all c ((List.dropWhile_sublist _).subset member)
      rw [isIntegerLiteral]
      rw [integer_text_short negative digits first rest same short]
      simp only [List.length_cons]
      constructor
      · intro _
        omega
      · intro _
        rw [some]
        rfl

theorem integer_text_stable (negative : Bool) (digits : Text) (all : digits.allDigits = true)
    (plain : isIntegerLiteral (integerText negative digits) = true) :
    integerText (Text.splitSign (integerText negative digits)).1
      (Text.splitSign (integerText negative digits)).2 = integerText negative digits := by
  have few := (integer_text_plain_iff negative digits all).mp plain
  cases same : digits.dropWhile (· == '0') with
  | nil =>
    rw [integer_text_zero negative digits same]
    rfl
  | cons first rest =>
    have head := List.head?_dropWhile_not (· == '0') digits
    rw [same] at head few
    have nonzero : first ≠ '0' := by simpa using head
    have kept : (first :: rest).dropWhile (· == '0') = first :: rest :=
      List.dropWhile_cons_of_neg (by simpa using nonzero)
    rw [integer_text_short negative digits first rest same few]
    unfold integerText
    rw [kept, same]

theorem of_literal_iff (literal : Text) (number : Number) (made : ofLiteral literal = .ok number) :
    ofLiteral number.text = .ok number ↔ number.KeepsKind := by
  rw [KeepsKind]
  constructor
  · intro back
    rcases of_literal_cases number.text number back with ⟨integer, same⟩ | ⟨broken, x, _, floated⟩
    · rw [same] at integer ⊢
      simp [integer]
    · obtain ⟨_, kind⟩ := of_float_ok x number floated
      simp [broken, kind]
  · intro keeps
    rcases of_literal_cases literal number made with ⟨integer, rfl⟩ | ⟨_, x, _, floated⟩
    · have short := keeps.mp rfl
      have stable := integer_text_stable _ _ (literal_digits literal integer) short
      rw [ofLiteral]
      simp only [short, if_true]
      rw [stable]
    · obtain ⟨encoded, kind⟩ := of_float_ok x number floated
      obtain ⟨y, decoded, again, _⟩ := encode_float_stable x number.text encoded
      have broken : isIntegerLiteral number.text = false := by
        cases integer : isIntegerLiteral number.text with
        | false => rfl
        | true =>
          rw [kind] at keeps
          exact absurd (keeps.mpr integer) (by decide)
      obtain ⟨_, _⟩ := number
      subst kind
      simp [ofLiteral, broken, decoded, again, bind, Except.bind]

-- The parts of a complex number are floats whatever their texts look like.
theorem of_float_stable (x : Double) (number : Number) (made : ofFloat x = .ok number) :
    ∃ y, decodeFloat number.text = .ok y ∧ ofFloat y = .ok number := by
  obtain ⟨encoded, kind⟩ := of_float_ok x number made
  obtain ⟨y, decoded, again, _⟩ := encode_float_stable x number.text encoded
  refine ⟨y, decoded, ?_⟩
  obtain ⟨_, _⟩ := number
  subst kind
  simp [ofFloat, again, Except.map]

end Number
end ParamStore

import ParamStore.Document.Parser
import ParamStore.Proofs.Outcome

set_option autoImplicit false

namespace ParamStore
namespace Parser

theorem part_ok (stop : Position) (tokens : List Located) (value : Double) :
    part stop tokens = .ok value ↔ ∃ literal position rest,
      tokens = ⟨.number literal, position⟩ :: rest ∧ decodeFloat literal = .ok value := by
  constructor
  · intro read
    unfold part at read
    split at read
    · rename_i literal position rest
      split at read
      · rename_i found decoded
        cases read
        exact ⟨literal, position, rest, rfl, decoded⟩
      · cases read
    · exact absurd read (unexpected_ne _ _ _ _)
  · rintro ⟨literal, position, rest, rfl, decoded⟩
    simp [part, decoded]

theorem expect_ok (stop : Position) (mark : Delimiter) (tokens rest : List Located) :
    expect stop mark tokens = .ok rest ↔ ∃ position, tokens = ⟨.delimiter mark, position⟩ :: rest := by
  constructor
  · intro read
    unfold expect at read
    split at read
    · exact absurd read (unexpected_ne _ _ _ _)
    · split at read
      · rename_i position _ same
        cases read
        exact ⟨position, by rw [same]⟩
      · exact absurd read (unexpected_ne _ _ _ _)
  · rintro ⟨position, rfl⟩
    simp [expect]

theorem complex_iff (stop opened : Position) (tokens left : List Located) (value : Value) :
    complex stop opened tokens = .ok (value, left) ↔ ∃ re im x y p q r s,
      tokens = ⟨.number re, p⟩ :: ⟨.delimiter .comma, q⟩ :: ⟨.number im, r⟩ ::
        ⟨.delimiter .closeParen, s⟩ :: left ∧
      decodeFloat re = .ok x ∧ decodeFloat im = .ok y ∧ Value.ofComplex ⟨x, y⟩ = .ok value := by
  constructor
  · intro read
    obtain ⟨x, first, afterRe⟩ := (Outcome.bind_ok _ _ _).mp read
    obtain ⟨behind, comma, afterComma⟩ := (Outcome.bind_ok _ _ _).mp afterRe
    obtain ⟨y, second, afterIm⟩ := (Outcome.bind_ok _ _ _).mp afterComma
    obtain ⟨last, closed, made⟩ := (Outcome.bind_ok _ _ _).mp afterIm
    obtain ⟨re, p, rest, rfl, reDecoded⟩ := (part_ok _ _ _).mp first
    obtain ⟨q, commaFirst⟩ := (expect_ok _ _ _ _).mp comma
    obtain ⟨im, r, more, rfl, imDecoded⟩ := (part_ok _ _ _).mp second
    obtain ⟨s, closeFirst⟩ := (expect_ok _ _ _ _).mp closed
    cases joined : Value.ofComplex ⟨x, y⟩ with
    | error cause => simp [joined] at made
    | ok found =>
      simp only [joined, Except.ok.injEq, Prod.mk.injEq] at made
      obtain ⟨rfl, rfl⟩ := made
      simp only [List.tail_cons] at commaFirst closeFirst
      exact ⟨re, im, x, y, p, q, r, s, by rw [commaFirst, closeFirst], reDecoded, imDecoded, joined⟩
  · rintro ⟨re, im, x, y, p, q, r, s, rfl, reDecoded, imDecoded, joined⟩
    simp [complex, part, expect, reDecoded, imDecoded, joined, bind, Except.bind]

mutual
inductive Derives (scope : Scope) : List Located → Value → Notes → List Located → Prop where
  | number (literal : Text) (position : Position) (rest : List Located) (number : Number)
      (made : Number.ofLiteral literal = .ok number) :
      Derives scope (⟨.number literal, position⟩ :: rest) (.number number) .none rest
  | quoted (literal : Text) (position : Position) (rest : List Located) (value : Value)
      (made : Value.ofString literal = .ok value) :
      Derives scope (⟨.quoted literal, position⟩ :: rest) value .none rest
  | table (opened : Position) (rest left : List Located) (found : List (Text × Flagged Value))
      (notes : Notes) (inside : DerivesEntries scope rest found notes left) :
      Derives scope (⟨.delimiter .openBrace, opened⟩ :: rest) (.table (Keyed.ofList found)) notes left
  | sequence (opened : Position) (rest left : List Located) (found : List (Flagged Value))
      (notes : Notes) (inside : DerivesElements scope rest found notes left) :
      Derives scope (⟨.delimiter .openBracket, opened⟩ :: rest) (.sequence found) notes left
  | complex (opened : Position) (rest left : List Located) (value : Value)
      (read : complex scope.stop opened rest = .ok (value, left)) :
      Derives scope (⟨.delimiter .openParen, opened⟩ :: rest) value .none left
  | bool (value : Bool) (position : Position) (rest : List Located) :
      Derives scope (⟨.word (encodeBool value), position⟩ :: rest) (.bool value) .none rest
  | nil (position : Position) (rest : List Located) :
      Derives scope (⟨.word nilWord, position⟩ :: rest) .nil .none rest
  | reference (word : Text) (position : Position) (rest left : List Located) (found : Reference)
      (value : Value) (notes : Notes)
      (free : word ∉ [trueWord, falseWord, nilWord, beginProlog, endProlog])
      (read : reference scope.stop word rest = .ok (found, left))
      (resolved : found.resolve scope position = .ok (value, notes)) :
      Derives scope (⟨.word word, position⟩ :: rest) value notes left
inductive DerivesEntries (scope : Scope) :
    List Located → List (Text × Flagged Value) → Notes → List Located → Prop where
  | close (position : Position) (rest : List Located) :
      DerivesEntries scope (⟨.delimiter .closeBrace, position⟩ :: rest) [] .none rest
  | entry (first : Located) (key : Text) (colon : Position) (behind left last : List Located)
      (value : Value) (found : List (Text × Flagged Value)) (notes more : Notes)
      (named : name first = .ok key) (item : Derives scope behind value notes left)
      (others : DerivesEntries scope (skipComma left) found more last) :
      DerivesEntries scope (first :: ⟨.delimiter .colon, colon⟩ :: behind)
        ((key, ⟨false, value⟩) :: found) (notes ++ more) last
inductive DerivesElements (scope : Scope) :
    List Located → List (Flagged Value) → Notes → List Located → Prop where
  | close (position : Position) (rest : List Located) :
      DerivesElements scope (⟨.delimiter .closeBracket, position⟩ :: rest) [] .none rest
  | last (tokens : List Located) (position : Position) (rest : List Located) (value : Value)
      (notes : Notes)
      (item : Derives scope tokens value notes (⟨.delimiter .closeBracket, position⟩ :: rest)) :
      DerivesElements scope tokens [⟨false, value⟩] notes rest
  | more (tokens : List Located) (comma : Position) (behind last : List Located) (value : Value)
      (found : List (Flagged Value)) (notes more : Notes)
      (item : Derives scope tokens value notes (⟨.delimiter .comma, comma⟩ :: behind))
      (others : DerivesElements scope behind found more last) :
      DerivesElements scope tokens (⟨false, value⟩ :: found) (notes ++ more) last
end

theorem derives_of_number (scope : Scope) (literal : Text) (position : Position)
    (rest : List Located) (step : Step Value (⟨.number literal, position⟩ :: rest))
    (done : expression scope (⟨.number literal, position⟩ :: rest) = .ok step) :
    Derives scope (⟨.number literal, position⟩ :: rest) step.value step.notes step.rest := by
  rw [expression] at done
  cases made : Number.ofLiteral literal with
  | error cause => simp [made] at done
  | ok number =>
    simp only [made, Except.ok.injEq] at done
    subst done
    exact .number literal position rest number made

theorem derives_of_quoted (scope : Scope) (literal : Text) (position : Position)
    (rest : List Located) (step : Step Value (⟨.quoted literal, position⟩ :: rest))
    (done : expression scope (⟨.quoted literal, position⟩ :: rest) = .ok step) :
    Derives scope (⟨.quoted literal, position⟩ :: rest) step.value step.notes step.rest := by
  rw [expression] at done
  cases made : Value.ofString literal with
  | error cause => simp [made] at done
  | ok value =>
    simp only [made, Except.ok.injEq] at done
    subst done
    exact .quoted literal position rest value made

theorem derives_of_paren (scope : Scope) (opened : Position) (rest : List Located)
    (step : Step Value (⟨.delimiter .openParen, opened⟩ :: rest))
    (done : expression scope (⟨.delimiter .openParen, opened⟩ :: rest) = .ok step) :
    Derives scope (⟨.delimiter .openParen, opened⟩ :: rest) step.value step.notes step.rest := by
  rw [expression] at done
  split at done
  · rename_i value left read
    cases done
    exact .complex opened rest left value read
  · cases done

theorem derives_of_word (scope : Scope) (word : Text) (position : Position) (rest : List Located)
    (step : Step Value (⟨.word word, position⟩ :: rest))
    (done : expression scope (⟨.word word, position⟩ :: rest) = .ok step) :
    Derives scope (⟨.word word, position⟩ :: rest) step.value step.notes step.rest := by
  rw [expression] at done
  by_cases isTrue : word = trueWord
  · subst isTrue
    rw [if_pos rfl] at done
    cases done
    exact .bool true position rest
  rw [if_neg isTrue] at done
  by_cases isFalse : word = falseWord
  · subst isFalse
    rw [if_pos rfl] at done
    cases done
    exact .bool false position rest
  rw [if_neg isFalse] at done
  by_cases isNil : word = nilWord
  · subst isNil
    rw [if_pos rfl] at done
    cases done
    exact .nil position rest
  rw [if_neg isNil] at done
  by_cases isMark : word = beginProlog ∨ word = endProlog
  · rw [if_pos isMark] at done
    cases done
  rw [if_neg isMark] at done
  split at done
  · cases done
  · rename_i found left read
    split at done
    · cases done
    · rename_i value notes resolved
      cases done
      refine .reference word position rest left found value notes ?_ read resolved
      rw [not_or] at isMark
      simp [isTrue, isFalse, isNil, isMark]

mutual
theorem derives_of_expression (scope : Scope) (tokens : List Located) (step : Step Value tokens)
    (done : expression scope tokens = .ok step) :
    Derives scope tokens step.value step.notes step.rest := by
  match tokens with
  | [] =>
    rw [expression] at done
    exact absurd done (unexpected_ne _ _ _ _)
  | ⟨.number literal, position⟩ :: rest => exact derives_of_number scope literal position rest step done
  | ⟨.quoted literal, position⟩ :: rest => exact derives_of_quoted scope literal position rest step done
  | ⟨.delimiter .openBrace, opened⟩ :: rest =>
    rw [expression] at done
    cases inside : entries scope opened rest with
    | error error => simp [inside] at done
    | ok found =>
      have derived := derives_of_entries scope opened rest found inside
      simp only [inside, Except.ok.injEq] at done
      subst done
      exact .table opened rest found.rest found.value found.notes derived
  | ⟨.delimiter .openBracket, opened⟩ :: rest =>
    rw [expression] at done
    cases inside : elements scope opened rest with
    | error error => simp [inside] at done
    | ok found =>
      have derived := derives_of_elements scope opened rest found inside
      simp only [inside, Except.ok.injEq] at done
      subst done
      exact .sequence opened rest found.rest found.value found.notes derived
  | ⟨.delimiter .openParen, opened⟩ :: rest => exact derives_of_paren scope opened rest step done
  | ⟨.word word, position⟩ :: rest => exact derives_of_word scope word position rest step done
  | ⟨.delimiter .closeBrace, position⟩ :: rest | ⟨.delimiter .closeBracket, position⟩ :: rest
  | ⟨.delimiter .closeParen, position⟩ :: rest | ⟨.delimiter .colon, position⟩ :: rest
  | ⟨.delimiter .comma, position⟩ :: rest | ⟨.delimiter .dot, position⟩ :: rest
  | ⟨.deferred place, position⟩ :: rest =>
    rw [expression] at done
    · exact absurd done (unexpected_ne _ _ _ _)
    all_goals simp
termination_by (tokens.length, 0)
theorem derives_of_entries (scope : Scope) (opened : Position) (tokens : List Located)
    (step : Step (List (Text × Flagged Value)) tokens)
    (done : entries scope opened tokens = .ok step) :
    DerivesEntries scope tokens step.value step.notes step.rest := by
  match tokens with
  | [] =>
    rw [entries] at done
    cases done
  | first :: rest =>
    by_cases closing : first.token = .delimiter .closeBrace
    · obtain ⟨token, position⟩ := first
      cases closing
      rw [entries] at done
      cases done
      exact .close position rest
    · rw [entries] at done
      · cases named : name first with
        | error error => simp [named] at done
        | ok key =>
          simp only [named] at done
          split at done
          · rename_i colon behind
            cases read : expression scope behind with
            | error error => simp [read] at done
            | ok item =>
              have itemDerived := derives_of_expression scope behind item read
              simp only [read] at done
              cases following : entries scope opened (skipComma item.rest) with
              | error error => simp [following] at done
              | ok others =>
                have derived := derives_of_entries scope opened _ others following
                simp only [following, Except.ok.injEq] at done
                subst done
                exact .entry first key colon behind _ _ _ _ _ _ named itemDerived derived
          · exact absurd done (unexpected_ne _ _ _ _)
      · intro position same
        cases same
        exact absurd rfl closing
termination_by (tokens.length, 1)
decreasing_by
  · have length := congrArg List.length ‹rest = _›
    apply Prod.Lex.left
    simp only [List.length_cons] at length ⊢
    omega
  · have length := congrArg List.length ‹rest = _›
    have bound := skip_comma_length item.rest
    have shorter := item.shorter
    apply Prod.Lex.left
    simp only [List.length_cons] at length ⊢
    omega
theorem derives_of_elements (scope : Scope) (opened : Position) (tokens : List Located)
    (step : Step (List (Flagged Value)) tokens) (done : elements scope opened tokens = .ok step) :
    DerivesElements scope tokens step.value step.notes step.rest := by
  match tokens with
  | [] =>
    rw [elements] at done
    cases done
  | first :: rest =>
    by_cases closing : first.token = .delimiter .closeBracket
    · obtain ⟨token, position⟩ := first
      cases closing
      rw [elements] at done
      cases done
      exact .close position rest
    · rw [elements] at done
      · cases read : expression scope (first :: rest) with
        | error error => simp [read] at done
        | ok item =>
          have itemDerived := derives_of_expression scope (first :: rest) item read
          obtain ⟨value, notes, left, shorter⟩ := item
          simp only [read] at done
          split at done
          · cases done
          · rename_i position last _
            cases done
            exact .last (first :: rest) position last value notes itemDerived
          · rename_i comma behind further
            have smaller : behind.length < rest.length + 1 := Nat.lt_of_succ_lt further
            cases following : elements scope opened behind with
            | error error => simp [following] at done
            | ok others =>
              have derived := derives_of_elements scope opened behind others following
              simp only [following, Except.ok.injEq] at done
              subst done
              exact .more (first :: rest) comma behind _ value _ notes _ itemDerived derived
          · cases done
      · intro position same
        cases same
        exact absurd rfl closing
termination_by (tokens.length, 1)
end

theorem name_word (first : Located) (key : Text) (named : name first = .ok key) :
    first.token = .word key ∧ isReserved key = false := by
  unfold name at named
  split at named
  · rename_i word position
    split at named
    · cases named
    · rename_i free
      cases named
      exact ⟨rfl, by simpa using free⟩
  · cases named

theorem derives_head (scope : Scope) (tokens left : List Located) (value : Value) (notes : Notes)
    (derived : Derives scope tokens value notes left) :
    ∃ first rest, tokens = first :: rest ∧ first.token ≠ .delimiter .closeBracket := by
  cases derived <;> exact ⟨_, _, rfl, by simp⟩

def Finds {α : Type} {tokens : List Located} (made : Except Error (Step α tokens)) (value : α)
    (notes : Notes) (rest : List Located) : Prop :=
  ∃ shorter, made = .ok ⟨value, notes, rest, shorter⟩

mutual
theorem expression_finds (scope : Scope) (tokens left : List Located) (value : Value)
    (notes : Notes) (derived : Derives scope tokens value notes left) :
    Finds (expression scope tokens) value notes left := by
  match derived with
  | .number literal position rest number made =>
    rw [expression, made]
    exact ⟨_, rfl⟩
  | .quoted literal position rest value made =>
    rw [expression, made]
    exact ⟨_, rfl⟩
  | .table opened rest left found notes inside =>
    obtain ⟨shorter, read⟩ := entries_finds scope opened rest left found notes inside
    rw [expression, read]
    exact ⟨_, rfl⟩
  | .sequence opened rest left found notes inside =>
    obtain ⟨shorter, read⟩ := elements_finds scope opened rest left found notes inside
    rw [expression, read]
    exact ⟨_, rfl⟩
  | .complex opened rest left value read =>
    rw [expression]
    split
    · rename_i found behind same
      cases read.symm.trans same
      exact ⟨_, rfl⟩
    · rename_i same
      cases read.symm.trans same
  | .bool value position rest =>
    rw [expression]
    cases value
    · exact ⟨_, rfl⟩
    · exact ⟨_, rfl⟩
  | .nil position rest =>
    rw [expression]
    exact ⟨_, rfl⟩
  | .reference word position rest left found value notes free read resolved =>
    simp only [List.mem_cons, List.not_mem_nil, or_false, not_or] at free
    rw [expression, if_neg free.1, if_neg free.2.1, if_neg free.2.2.1, if_neg]
    · split
      · rename_i same
        cases read.symm.trans same
      · rename_i other behind same
        cases read.symm.trans same
        rw [resolved]
        exact ⟨_, rfl⟩
    · rintro (opening | closing)
      · exact free.2.2.2.1 opening
      · exact free.2.2.2.2 closing
theorem entries_finds (scope : Scope) (opened : Position) (tokens left : List Located)
    (found : List (Text × Flagged Value)) (notes : Notes)
    (derived : DerivesEntries scope tokens found notes left) :
    Finds (entries scope opened tokens) found notes left := by
  match derived with
  | .close position rest =>
    rw [entries]
    exact ⟨_, rfl⟩
  | .entry first key colon behind between last value found notes more named item others =>
    obtain ⟨shorter, read⟩ := expression_finds scope behind between value notes item
    obtain ⟨shorterStill, following⟩ :=
      entries_finds scope opened (skipComma between) last found more others
    rw [entries]
    · simp only [named, read, following]
      exact ⟨_, rfl⟩
    · intro position same
      have word := (name_word first key named).1
      rw [same] at word
      cases word
theorem elements_finds (scope : Scope) (opened : Position) (tokens left : List Located)
    (found : List (Flagged Value)) (notes : Notes)
    (derived : DerivesElements scope tokens found notes left) :
    Finds (elements scope opened tokens) found notes left := by
  match derived with
  | .close position rest =>
    rw [elements]
    exact ⟨_, rfl⟩
  | .last tokens position rest value notes item =>
    obtain ⟨first, behind, same, unclosed⟩ := derives_head scope tokens _ value notes item
    obtain ⟨shorter, read⟩ := expression_finds scope tokens _ value notes item
    subst same
    rw [elements]
    · simp only [read]
      exact ⟨_, rfl⟩
    · intro position closing
      rw [closing] at unclosed
      exact unclosed rfl
  | .more tokens comma behind last value found notes more item others =>
    obtain ⟨first, tail, same, unclosed⟩ := derives_head scope tokens _ value notes item
    obtain ⟨shorter, read⟩ := expression_finds scope tokens _ value notes item
    obtain ⟨shorterStill, following⟩ := elements_finds scope opened behind last found more others
    subst same
    rw [elements]
    · simp only [read, following]
      exact ⟨_, rfl⟩
    · intro position closing
      rw [closing] at unclosed
      exact unclosed rfl
end

end Parser
end ParamStore

import Mathlib.Data.List.Basic
import ParamStore.Token.Lexer
import ParamStore.Value.Source

set_option autoImplicit false

namespace ParamStore
namespace Text

theorem escape_char_plain (c : Char) (plain : needsQuotes c = false) : escapeChar c = [c] := by
  simp only [needsQuotes, Bool.or_eq_false_iff, beq_eq_false_iff_ne, ne_eq] at plain
  obtain ⟨⟨⟨⟨⟨double, single⟩, back⟩, line⟩, tab⟩, _⟩ := plain
  simp [escapeChar, double, single, back, line, tab]

theorem escape_plain (content : Text) (plain : content.any needsQuotes = false) :
    escape content = content := by
  induction content with
  | nil => rfl
  | cons c rest ih =>
    simp only [List.any_cons, Bool.or_eq_false_iff] at plain
    have later : rest.flatMap escapeChar = rest := ih plain.2
    simp [escape, escape_char_plain c plain.1, later]

theorem escape_cons (c : Char) (rest : Text) : escape (c :: rest) = escapeChar c ++ escape rest := by
  simp [escape]

theorem escape_char_cases (c : Char) :
    (∃ mark, escapeChar c = ['\\', mark] ∧ unescapeChar? mark = some c) ∨
      (escapeChar c = [c] ∧ c ≠ '\\' ∧ c ≠ '"') := by
  by_cases quote : c = '"' ∨ c = '\'' ∨ c = '\\'
  · exact .inl ⟨c, by simp [escapeChar, quote], by simp [unescapeChar?, quote]⟩
  · by_cases line : c = '\n'
    · subst line
      exact .inl ⟨'n', by decide, by decide⟩
    · by_cases tab : c = '\t'
      · subst tab
        exact .inl ⟨'t', by decide, by decide⟩
      · rw [not_or, not_or] at quote
        exact .inr ⟨by simp [escapeChar, quote, line, tab], quote.2.2, quote.1⟩

theorem unescape_escape (content : Text) : unescape (escape content) = .ok content := by
  induction content with
  | nil => rfl
  | cons c rest ih =>
    rw [escape_cons]
    rcases escape_char_cases c with ⟨mark, escaped, back⟩ | ⟨plain, noBack, _⟩
    · rw [escaped]
      simp [unescape, back, ih, Except.map]
    · rw [plain, List.singleton_append, unescape]
      · simp [ih, Except.map]
      · rintro rfl
        exact absurd rfl noBack
      · rintro _ _ rfl
        exact absurd rfl noBack

theorem enclosed_between (quote : Char) (inside : Text) :
    enclosed? quote (quote :: (inside ++ [quote])) = some inside := by
  simp [enclosed?]

theorem enclosed_some (quote : Char) (text inside : Text)
    (enclosed : enclosed? quote text = some inside) : text = quote :: (inside ++ [quote]) := by
  cases text with
  | nil => cases enclosed
  | cons first rest =>
    rw [enclosed?] at enclosed
    split at enclosed
    · rename_i ends
      cases enclosed
      rw [ends.1, List.dropLast_append_getLast? quote ends.2]
    · cases enclosed

theorem double_quoted (inside content : Text) :
    Text.content ('"' :: (inside ++ ['"'])) = .ok content ↔ unescape inside = .ok content := by
  rw [Text.content, enclosed_between]
  simp only [readInside]
  cases unescape inside <;> simp

theorem single_quoted (inside : Text) :
    Text.content ('\'' :: (inside ++ ['\''])) = .ok inside := by
  have noDouble : enclosed? '"' ('\'' :: (inside ++ ['\''])) = none := by simp [enclosed?]
  rw [Text.content, enclosed_between, noDouble]

-- A text that starts and ends with one quote character would be taken for a quoted one.
def Bounded (text : Text) : Prop :=
  ∃ quote inside, (quote = '"' ∨ quote = '\'') ∧ text = quote :: (inside ++ [quote])

theorem unbounded_content (text : Text) (unbounded : ¬ text.Bounded) :
    text.content = .ok text := by
  have free : ∀ quote, quote = '"' ∨ quote = '\'' → enclosed? quote text = none := by
    intro quote either
    cases enclosed : enclosed? quote text with
    | none => rfl
    | some inside =>
      exact absurd ⟨quote, inside, either, enclosed_some quote text inside enclosed⟩ unbounded
  rw [content, free '"' (.inl rfl), free '\'' (.inr rfl)]

end Text

theorem decode_canonical (content : Text) : decodeString content.canonical = .ok content := by
  rw [Text.canonical]
  by_cases bare : content = [] ∨ content.any Text.needsQuotes = true
  · rw [if_pos bare, decodeString, Text.quoted, List.cons_append, Text.enclosed_between]
    simp only [Text.readInside, Text.unescape_escape]
  · rw [if_neg bare]
    rw [not_or, Bool.not_eq_true] at bare
    rw [Text.escape_plain content bare.2, decodeString]
    cases enclosed : content.enclosed? '"' with
    | none => rfl
    | some inside =>
      rw [Text.enclosed_some '"' content inside enclosed] at bare
      simp [Text.needsQuotes] at bare

theorem Value.quoted_canonical (content : Text) :
    quotedSource content.canonical = Text.quoted content.escape := by
  rw [Text.canonical]
  by_cases bare : content = [] ∨ content.any Text.needsQuotes = true
  · rw [if_pos bare]
    rfl
  · rw [if_neg bare]
    rw [not_or, Bool.not_eq_true] at bare
    have same := Text.escape_plain content bare.2
    rw [quotedSource]
    rw [if_neg]
    rw [same]
    intro head
    cases content with
    | nil => cases head
    | cons c rest =>
      cases head
      simp [Text.needsQuotes] at bare

namespace Token

theorem close_quote_escape (content rest : Text) :
    closeQuote? '"' (content.escape ++ '"' :: rest) = some (content.escape ++ ['"'], rest) := by
  induction content with
  | nil => cases rest <;> simp [Text.escape, closeQuote?]
  | cons c tail ih =>
    rw [Text.escape_cons]
    rcases Text.escape_char_cases c with ⟨mark, escaped, _⟩ | ⟨plain, noBack, noQuote⟩
    · rw [escaped]
      simp [closeQuote?, ih]
    · rw [plain, List.append_assoc, List.singleton_append]
      cases behind : Text.escape tail ++ '"' :: rest with
      | nil => simp at behind
      | cons next left =>
        rw [behind] at ih
        simp [closeQuote?, noBack, noQuote, ih]

end Token
end ParamStore

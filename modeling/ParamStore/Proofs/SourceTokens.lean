import ParamStore.Proofs.TokenRuns
import ParamStore.Proofs.ValueCanonical

set_option autoImplicit false

namespace ParamStore

def Token.separated : List (List Token) → List Token
  | [] => []
  | [item] => item
  | item :: rest => item ++ .delimiter .comma :: Token.separated rest

namespace Value

mutual
def tokens : Value → List Token
  | .nil => [.word nilWord]
  | .bool value => [.word (encodeBool value)]
  | .number value => [.number value.text]
  | .complex re im => [.delimiter .openParen, .number re.text, .delimiter .comma, .number im.text,
      .delimiter .closeParen]
  | .string text => [.quoted (quotedSource text)]
  | .sequence items =>
    .delimiter .openBracket :: (Token.separated (itemTokens items) ++ [.delimiter .closeBracket])
  | .table entries =>
    .delimiter .openBrace :: (Token.separated (entryTokens entries) ++ [.delimiter .closeBrace])
def itemTokens : List (Flagged Value) → List (List Token)
  | [] => []
  | ⟨_, value⟩ :: tail => value.tokens :: itemTokens tail
def entryTokens : List (Text × Flagged Value) → List (List Token)
  | [] => []
  | (key, ⟨_, value⟩) :: tail =>
    (.word key :: .delimiter .colon :: value.tokens) :: entryTokens tail
end

theorem number_spelled (value : Number) (canonical : (Value.number value).Canonical) :
    Number.Spelled value.text := by
  obtain ⟨literal, made⟩ := canonical
  exact Number.of_literal_spelled literal value made

theorem part_spelled (value : Number) (made : ∃ x, Number.ofFloat x = .ok value) :
    Number.Spelled value.text := by
  obtain ⟨x, floated⟩ := made
  obtain ⟨_, _, _, form⟩ :=
    encode_float_stable x value.text (Number.of_float_ok x value floated).1
  exact Number.form_spelled x value.text form

end Value

namespace Token

theorem stops_mark (mark : Delimiter) (rest : Text) (outside : mark ≠ .dot) :
    Stops (mark.char :: rest) := by
  intro c head
  cases head
  cases mark <;> first | exact ⟨rfl, by decide⟩ | exact absurd rfl outside

end Token

namespace TokenStream

theorem reads_separator (rest : Text) (tokens : List Token) (behind : Reads rest tokens) :
    Reads (Value.separator ++ rest) (.delimiter .comma :: tokens) :=
  reads_mark .comma (' ' :: rest) tokens (reads_blank rest tokens behind)

theorem bool_word (value : Bool) :
    (encodeBool value).isKey = true ∧ encodeBool value ≠ Text.infinity := by
  cases value
  · exact ⟨rfl, by decide⟩
  · exact ⟨rfl, by decide⟩

theorem key_finite (key : Text) (free : isReserved key = false) : key ≠ Text.infinity := by
  rintro rfl
  exact absurd free (by decide)

mutual
theorem source_reads (value : Value) (canonical : value.Canonical) (rest : Text)
    (tokens : List Token) (stops : Token.Stops rest) (behind : Reads rest tokens) :
    Reads (value.source ++ rest) (value.tokens ++ tokens) := by
  cases value with
  | nil => exact reads_word nilWord rest tokens rfl (by decide) stops behind
  | bool value =>
    obtain ⟨key, finite⟩ := bool_word value
    exact reads_word (encodeBool value) rest tokens key finite stops behind
  | number value =>
    exact reads_number value.text rest tokens (Value.number_spelled value canonical) stops behind
  | complex re im =>
    have closed := reads_mark .closeParen rest tokens behind
    have second := reads_number im.text _ _ (Value.part_spelled im canonical.2)
      (Token.stops_mark .closeParen rest (by decide)) closed
    have comma := reads_mark .comma _ _ second
    have first := reads_number re.text _ _ (Value.part_spelled re canonical.1)
      (Token.stops_mark .comma _ (by decide)) comma
    have opened := reads_mark .openParen _ _ first
    simpa [Value.source, Complex.join, Value.tokens, Delimiter.char] using opened
  | string text =>
    obtain ⟨content, rfl⟩ := canonical
    rw [Value.source, Value.tokens, Value.quoted_canonical]
    exact reads_string content rest tokens behind
  | sequence items =>
    have closed := reads_mark .closeBracket rest tokens behind
    have inside := items_read items canonical _ _ (Token.stops_mark .closeBracket rest (by decide))
      closed
    have opened := reads_mark .openBracket _ _ inside
    simpa [Value.source, Value.tokens, Delimiter.char] using opened
  | table entries =>
    have closed := reads_mark .closeBrace rest tokens behind
    have inside := entries_read entries canonical.2 _ _
      (Token.stops_mark .closeBrace rest (by decide)) closed
    have opened := reads_mark .openBrace _ _ inside
    simpa [Value.source, Value.tokens, Delimiter.char] using opened
theorem items_read (items : List (Flagged Value)) (canonical : Value.ItemsCanonical items)
    (rest : Text) (tokens : List Token) (stops : Token.Stops rest) (behind : Reads rest tokens) :
    Reads (Text.joined Value.separator (Value.itemSources items) ++ rest)
      (Token.separated (Value.itemTokens items) ++ tokens) := by
  match items with
  | [] => exact behind
  | [⟨_, value⟩] => exact source_reads value canonical.2.1 rest tokens stops behind
  | ⟨_, value⟩ :: ⟨flag, next⟩ :: tail =>
    have later := items_read (⟨flag, next⟩ :: tail) canonical.2.2 rest tokens stops behind
    have comma := reads_separator _ _ later
    have first := source_reads value canonical.2.1 _ _ (Token.stops_mark .comma _ (by decide)) comma
    simpa [Value.itemSources, Value.itemTokens, Text.joined, Token.separated, Value.separator,
      Delimiter.char] using first
theorem entries_read (entries : List (Text × Flagged Value))
    (canonical : Value.EntriesCanonical entries) (rest : Text) (tokens : List Token)
    (stops : Token.Stops rest) (behind : Reads rest tokens) :
    Reads (Text.joined Value.separator (Value.entrySources entries) ++ rest)
      (Token.separated (Value.entryTokens entries) ++ tokens) := by
  match entries with
  | [] => exact behind
  | [(key, ⟨_, value⟩)] =>
    have value' := source_reads value canonical.2.2.1 rest tokens stops behind
    have colon := reads_mark .colon _ _ (reads_blank _ _ value')
    have named := reads_word key _ _ canonical.1.1 (key_finite key canonical.1.2)
      (Token.stops_mark .colon _ (by decide)) colon
    simpa [Value.entrySources, Value.entryTokens, Text.joined, Token.separated, Delimiter.char]
      using named
  | (key, ⟨_, value⟩) :: (other, ⟨flag, next⟩) :: tail =>
    have later := entries_read ((other, ⟨flag, next⟩) :: tail) canonical.2.2.2 rest tokens stops behind
    have comma := reads_separator _ _ later
    have first := source_reads value canonical.2.2.1 _ _ (Token.stops_mark .comma _ (by decide)) comma
    have colon := reads_mark .colon _ _ (reads_blank _ _ first)
    have named := reads_word key _ _ canonical.1.1 (key_finite key canonical.1.2)
      (Token.stops_mark .colon _ (by decide)) colon
    simpa [Value.entrySources, Value.entryTokens, Text.joined, Token.separated, Delimiter.char,
      Value.separator] using named
end

end TokenStream
end ParamStore

import ParamStore.Proofs.QuotedTexts

set_option autoImplicit false

namespace ParamStore
namespace Text

-- A backslash at the very end stands for itself.
def Means (inside content : Text) : Prop :=
  Escaped inside content ∨
    ∃ front read, inside = front ++ ['\\'] ∧ Escaped front read ∧ content = read ++ ['\\']

-- Read from the left, the first backslash that is not part of an escape is in front of this character.
def Breaks (inside : Text) (escaped : Char) : Prop :=
  ∃ front read rest, inside = front ++ '\\' :: escaped :: rest ∧ Escaped front read ∧
    ∀ plain, (escaped, plain) ∉ escapes

inductive Denotes : Text → Text → Prop where
  | double (inside content : Text) (means : Means inside content) : Denotes (quoted inside) content
  | single (inside : Text) : Denotes ('\'' :: (inside ++ ['\''])) inside
  | bare (text : Text) (unbounded : ¬ text.Bounded) : Denotes text text

def triggers : List Char := ['"', '\'', '\\', '\n', '\t', ' ']

theorem needs_quotes_iff (c : Char) : needsQuotes c = true ↔ c ∈ triggers := by
  simp [needsQuotes, triggers, or_assoc]

theorem unescape_front (front read rest : Text) (escaped : Escaped front read) :
    unescape (front ++ rest) = (unescape rest).map (read ++ ·) := by
  induction escaped with
  | nil =>
    rw [List.nil_append]
    cases unescape rest <;> rfl
  | plain c tail content noBackslash others ih =>
    rw [List.cons_append, unescape, ih]
    · cases unescape rest <;> rfl
    · intro same
      exact absurd same noBackslash
    · intro _ _ same
      exact absurd same noBackslash
  | escape c plain tail content known others ih =>
    rw [List.cons_append, List.cons_append, unescape, (unescape_char_iff c plain).mpr known, ih]
    cases unescape rest <;> rfl

-- Escapes go on to the end of the text, or to a lone backslash there, or to one that escapes nothing.
theorem escaped_front (inside : Text) :
    ∃ front read rest, inside = front ++ rest ∧ Escaped front read ∧
      (rest = [] ∨ rest = ['\\'] ∨
        ∃ c left, rest = '\\' :: c :: left ∧ ∀ plain, (c, plain) ∉ escapes) := by
  fun_induction unescape inside with
  | case1 => exact ⟨[], [], [], rfl, .nil, .inl rfl⟩
  | case2 => exact ⟨[], [], ['\\'], rfl, .nil, .inr (.inl rfl)⟩
  | case3 c rest unknown =>
    refine ⟨[], [], _, rfl, .nil, .inr (.inr ⟨c, rest, rfl, fun plain known => ?_⟩)⟩
    rw [(unescape_char_iff c plain).mpr known] at unknown
    cases unknown
  | case4 c rest plain known ih =>
    obtain ⟨front, read, behind, same, escaped, ends⟩ := ih
    have pair := (unescape_char_iff c plain).mp known
    exact ⟨'\\' :: c :: front, plain :: read, behind, by rw [same]; rfl,
      .escape c plain front read pair escaped, ends⟩
  | case5 c rest notLast notPair ih =>
    obtain ⟨front, read, behind, same, escaped, ends⟩ := ih
    have noBackslash : c ≠ '\\' := by
      intro backslash
      cases rest with
      | nil => exact notLast backslash rfl
      | cons next tail => exact notPair next tail backslash rfl
    exact ⟨c :: front, c :: read, behind, by rw [same]; rfl,
      .plain c front read noBackslash escaped, ends⟩

theorem unescape_means (inside content : Text) (means : Means inside content) :
    unescape inside = .ok content := by
  rcases means with escaped | ⟨front, read, same, escaped, ends⟩
  · exact escaped_unescape inside content escaped
  · rw [same, ends, unescape_front front read ['\\'] escaped]
    rfl

theorem unescape_breaks (inside : Text) (escaped : Char) (breaks : Breaks inside escaped) :
    unescape inside = .error escaped := by
  obtain ⟨front, read, rest, same, known, unknown⟩ := breaks
  have none : unescapeChar? escaped = none := by
    cases found : unescapeChar? escaped with
    | none => rfl
    | some plain => exact absurd ((unescape_char_iff escaped plain).mp found) (unknown plain)
  rw [same, unescape_front front read _ known, unescape, none]
  rfl

theorem means_or_breaks (inside : Text) :
    (∃ content, Means inside content) ∨ ∃ escaped, Breaks inside escaped := by
  obtain ⟨front, read, rest, same, escaped, ends⟩ := escaped_front inside
  rcases ends with none | lone | ⟨c, left, broken, unknown⟩
  · rw [none, List.append_nil] at same
    exact .inl ⟨read, .inl (same ▸ escaped)⟩
  · rw [lone] at same
    exact .inl ⟨read ++ ['\\'], .inr ⟨front, read, same, escaped, rfl⟩⟩
  · rw [broken] at same
    exact .inr ⟨c, front, read, left, same, escaped, unknown⟩

theorem unescape_ok_iff (inside content : Text) :
    unescape inside = .ok content ↔ Means inside content := by
  constructor
  · intro unescaped
    rcases means_or_breaks inside with ⟨other, means⟩ | ⟨escaped, breaks⟩
    · cases unescaped.symm.trans (unescape_means inside other means)
      exact means
    · cases unescaped.symm.trans (unescape_breaks inside escaped breaks)
  · exact unescape_means inside content

theorem unescape_error_iff (inside : Text) (escaped : Char) :
    unescape inside = .error escaped ↔ Breaks inside escaped := by
  constructor
  · intro failed
    rcases means_or_breaks inside with ⟨content, means⟩ | ⟨other, breaks⟩
    · cases failed.symm.trans (unescape_means inside content means)
    · cases failed.symm.trans (unescape_breaks inside other breaks)
      exact breaks
  · exact unescape_breaks inside escaped

theorem bounded_cases (raw : Text) :
    (∃ inside, raw = quoted inside) ∨ (∃ inside, raw = '\'' :: (inside ++ ['\''])) ∨ ¬ raw.Bounded := by
  by_cases bounded : raw.Bounded
  · obtain ⟨quote, inside, either, same⟩ := bounded
    rcases either with double | single
    · exact .inl ⟨inside, by rw [same, double]; rfl⟩
    · exact .inr (.inl ⟨inside, by rw [same, single]⟩)
  · exact .inr (.inr bounded)

theorem content_denotes (raw content : Text) (denotes : Denotes raw content) :
    raw.content = .ok content := by
  cases denotes with
  | double _ _ means => exact (double_quoted _ content).mpr (unescape_means _ content means)
  | single => exact single_quoted content
  | bare _ unbounded => exact unbounded_content raw unbounded

theorem content_ok_iff (raw content : Text) : raw.content = .ok content ↔ Denotes raw content := by
  constructor
  · intro read
    rcases bounded_cases raw with ⟨inside, same⟩ | ⟨inside, same⟩ | unbounded
    · rw [same] at read ⊢
      have unescaped := (double_quoted inside content).mp read
      exact .double inside content ((unescape_ok_iff inside content).mp unescaped)
    · rw [same] at read ⊢
      rw [Except.ok.inj ((single_quoted inside).symm.trans read)]
      exact .single content
    · rw [← Except.ok.inj ((unbounded_content raw unbounded).symm.trans read)]
      exact .bare raw unbounded
  · exact content_denotes raw content

theorem content_error_iff (raw : Text) (error : Error) :
    raw.content = .error error ↔ ∃ inside escaped, raw = quoted inside ∧ Breaks inside escaped ∧
      error = .typeMismatch (.unknownEscape escaped inside) := by
  constructor
  · intro failed
    rcases bounded_cases raw with ⟨inside, same⟩ | ⟨inside, same⟩ | unbounded
    · rw [same, quoted, List.cons_append, content, enclosed_between] at failed
      simp only [readInside] at failed
      cases broken : unescape inside with
      | ok content => simp [broken] at failed
      | error escaped =>
        simp only [broken, Except.error.injEq] at failed
        exact ⟨inside, escaped, same, (unescape_error_iff inside escaped).mp broken, failed.symm⟩
    · rw [same, single_quoted] at failed
      cases failed
    · rw [unbounded_content raw unbounded] at failed
      cases failed
  · intro bad
    obtain ⟨inside, escaped, same, breaks, worded⟩ := bad
    rw [same, worded, quoted, List.cons_append, content, enclosed_between]
    simp only [readInside, unescape_breaks inside escaped breaks]

theorem plain_unbounded (text : Text) (plain : text.any needsQuotes = false) : ¬ text.Bounded := by
  intro bounded
  obtain ⟨quote, inside, either, same⟩ := bounded
  rw [same] at plain
  rcases either with double | single
  · rw [double] at plain
    simp [needsQuotes] at plain
  · rw [single] at plain
    simp [needsQuotes] at plain

theorem canonical_content (content : Text) : content.canonical.content = .ok content := by
  rw [canonical]
  by_cases bare : content = [] ∨ content.any needsQuotes = true
  · rw [if_pos bare]
    exact (double_quoted content.escape content).mpr (unescape_escape content)
  · rw [if_neg bare]
    rw [not_or, Bool.not_eq_true] at bare
    rw [escape_plain content bare.2]
    exact unbounded_content content (plain_unbounded content bare.2)

theorem canonical_injective (content other : Text) (same : content.canonical = other.canonical) :
    content = other := by
  have back := canonical_content content
  rw [same, canonical_content other] at back
  exact (Except.ok.inj back).symm

theorem canonical_quoted_iff (content : Text) :
    (∃ inside, content.canonical = quoted inside) ↔ content = [] ∨ ∃ c ∈ content, c ∈ triggers := by
  have some : content.any needsQuotes = true ↔ ∃ c ∈ content, c ∈ triggers := by
    simp only [List.any_eq_true, needs_quotes_iff]
  rw [← some, canonical]
  by_cases bare : content = [] ∨ content.any needsQuotes = true
  · rw [if_pos bare]
    exact ⟨fun _ => bare, fun _ => ⟨_, rfl⟩⟩
  · rw [if_neg bare]
    rw [not_or, Bool.not_eq_true] at bare
    rw [escape_plain content bare.2]
    constructor
    · intro inQuotes
      obtain ⟨inside, same⟩ := inQuotes
      exact absurd ⟨'"', inside, .inl rfl, same⟩ (plain_unbounded content bare.2)
    · intro either
      rcases either with empty | trigger
      · exact absurd empty bare.1
      · rw [bare.2] at trigger
        cases trigger

end Text

theorem encode_string_ok (raw text : Text) :
    encodeString raw = .ok text ↔ ∃ content, Text.Denotes raw content ∧ content.canonical = text := by
  rw [encodeString, Outcome.map_ok]
  simp only [Text.content_ok_iff]

theorem encode_canonical (content : Text) : encodeString content.canonical = .ok content.canonical :=
  (encode_string_ok _ _).mpr
    ⟨content, (Text.content_ok_iff _ _).mp (Text.canonical_content content), rfl⟩

theorem encode_string_normal (raw other : Text) :
    (∀ error, encodeString raw = .error error ↔ ∃ inside escaped, raw = Text.quoted inside ∧
      inside.Breaks escaped ∧ error = .typeMismatch (.unknownEscape escaped inside)) ∧
    (∀ text, encodeString raw = .ok text → ∃ content, (∀ meant, raw.Denotes meant ↔ meant = content) ∧
      decodeString text = .ok content ∧ encodeString text = .ok text ∧
      ((∃ inside, text = Text.quoted inside) ↔ content = [] ∨ ∃ c ∈ content, c ∈ Text.triggers)) ∧
    (∀ text otherText, encodeString raw = .ok text → encodeString other = .ok otherText →
      (text = otherText ↔ ∃ content, raw.Denotes content ∧ other.Denotes content)) := by
  have unique : ∀ text content meant : Text, text.Denotes content → text.Denotes meant →
      meant = content := by
    intro text content meant denotes others
    have read := Text.content_denotes text content denotes
    exact Except.ok.inj ((Text.content_denotes text meant others).symm.trans read)
  refine ⟨fun error => ?_, fun text encoded => ?_, fun text otherText encoded otherEncoded => ?_⟩
  · rw [← Text.content_error_iff, encodeString]
    cases raw.content <;> simp [Except.map]
  · obtain ⟨content, denotes, same⟩ := (encode_string_ok raw text).mp encoded
    rw [← same]
    refine ⟨content, fun meant => ⟨unique raw content meant denotes, ?_⟩, decode_canonical content,
      encode_canonical content, Text.canonical_quoted_iff content⟩
    intro same
    rw [same]
    exact denotes
  · obtain ⟨content, denotes, same⟩ := (encode_string_ok raw text).mp encoded
    obtain ⟨otherContent, otherDenotes, otherSame⟩ := (encode_string_ok other otherText).mp otherEncoded
    rw [← same, ← otherSame]
    constructor
    · intro canonical
      rw [← Text.canonical_injective content otherContent canonical] at otherDenotes
      exact ⟨content, denotes, otherDenotes⟩
    · intro both
      obtain ⟨shared, here, there⟩ := both
      rw [← unique raw content shared denotes here, ← unique other otherContent shared otherDenotes there]

-- One content in double quotes with a lone backslash at the end, and in single quotes. In the third text the
-- second backslash belongs to an escape and the third one does not.
theorem encode_string_normal_quotes :
    (∃ text, encodeString ['"', 'a', '\\', '"', '\'', '\\', '"'] = .ok text ∧
      encodeString ['\'', 'a', '"', '\'', '\\', '\''] = .ok text ∧
      decodeString text = .ok ['a', '"', '\'', '\\'] ∧ encodeString text = .ok text ∧
      ∃ inside, text = Text.quoted inside) ∧
    encodeString ['"', '\\', '\\', '\\', 'q', '"'] =
      .error (.typeMismatch (.unknownEscape 'q' ['\\', '\\', '\\', 'q'])) := by
  have double : encodeString ['"', 'a', '\\', '"', '\'', '\\', '"'] =
      .ok ['"', 'a', '\\', '"', '\\', '\'', '\\', '\\', '"'] := by decide
  have single : encodeString ['\'', 'a', '"', '\'', '\\', '\''] =
      .ok ['"', 'a', '\\', '"', '\\', '\'', '\\', '\\', '"'] := by decide
  obtain ⟨_, normal, alike⟩ := encode_string_normal ['"', 'a', '\\', '"', '\'', '\\', '"']
    ['\'', 'a', '"', '\'', '\\', '\'']
  obtain ⟨content, meant, reads, again, quotes⟩ := normal _ double
  obtain ⟨shared, here, there⟩ := (alike _ _ double single).mp rfl
  have literal : content = ['a', '"', '\'', '\\'] := by
    rw [← (meant shared).mp here]
    have read := Text.content_denotes _ shared there
    exact Except.ok.inj (read.symm.trans (Text.single_quoted ['a', '"', '\'', '\\']))
  rw [literal] at reads quotes
  refine ⟨⟨_, double, single, reads, again, quotes.mpr (.inr ⟨'"', by decide, by decide⟩)⟩, ?_⟩
  refine ((encode_string_normal _ []).1 _).mpr ⟨['\\', '\\', '\\', 'q'], 'q', rfl, ?_, rfl⟩
  exact ⟨['\\', '\\'], ['\\'], [], rfl, .escape '\\' '\\' [] [] (by decide) .nil, by simp [Text.escapes]⟩

end ParamStore

import ParamStore.Proofs.Phrases
import ParamStore.Proofs.SourceFaithful

set_option autoImplicit false

namespace ParamStore
namespace Token

def Unmarked : Token → Prop
  | .deferred _ => False
  | .quoted literal => QuotedText literal
  | _ => True

end Token

namespace Parser

theorem skip_comma_tokens (tokens : List Located) :
    ∃ comma, (comma = [] ∨ comma = [Token.delimiter .comma]) ∧
      tokens.map Located.token = comma ++ (skipComma tokens).map Located.token := by
  unfold skipComma
  split
  · exact ⟨_, .inr rfl, rfl⟩
  · exact ⟨_, .inl rfl, rfl⟩

theorem unmarked_behind (before : List Token) (tokens left : List Located)
    (unmarked : ∀ token ∈ tokens.map Located.token, token.Unmarked)
    (split : tokens.map Located.token = before ++ left.map Located.token) :
    ∀ token ∈ left.map Located.token, token.Unmarked := by
  intro token member
  refine unmarked token ?_
  rw [split]
  exact List.mem_append_right _ member

theorem reference_place (stop : Position) (word : Text) (tokens left : List Located)
    (found : Reference) (unmarked : ∀ token ∈ tokens.map Located.token, token.Unmarked)
    (read : reference stop word tokens = .ok (found, left)) : found.place = none := by
  rw [reference] at read
  split at read
  · cases read
  · rename_i number behind versioned
    split at read
    · cases read
    · rename_i inwards remaining stepped
      cases read
      have suffix := (steps_suffix stop behind remaining inwards stepped).trans
        (version_suffix tokens behind number versioned)
      simp only [external]
      split
      · rename_i place position rest
        have member : Token.deferred place ∈ tokens.map Located.token :=
          List.mem_map.mpr ⟨_, suffix.subset (List.mem_cons_self ..), rfl⟩
        exact (unmarked _ member).elim
      · rfl

-- Where nothing is bound, a reference is read only if it is left for later, and then as nil.
theorem resolve_marked (stop position : Position) (found : Reference) (value : Value) (notes : Notes) :
    found.resolve ⟨.empty, true, stop⟩ position = .ok (value, notes) ↔
      (∃ place, found.place = some place) ∧ value = .nil ∧ found.deferredNotes position = notes := by
  have missing : found.base? .empty = none := by
    rw [Reference.base?]
    cases found.version <;> rfl
  cases same : found.place with
  | none => simp [Reference.resolve, missing, same]
  | some place => simp [Reference.resolve, missing, same, eq_comm]

theorem reference_refused (stop position : Position) (word : Text) (tokens left : List Located)
    (found : Reference) (unmarked : ∀ token ∈ tokens.map Located.token, token.Unmarked)
    (read : reference stop word tokens = .ok (found, left)) (result : Value × Notes) :
    found.resolve ⟨.empty, true, stop⟩ position ≠ .ok result := by
  intro resolved
  obtain ⟨⟨place, marked⟩, _⟩ := (resolve_marked stop position found result.1 result.2).mp resolved
  cases (reference_place stop word tokens left found unmarked read).symm.trans marked

mutual
theorem derives_spells (stop : Position) (tokens left : List Located) (value : Value)
    (notes : Notes) (unmarked : ∀ token ∈ tokens.map Located.token, token.Unmarked)
    (derived : Derives ⟨.empty, true, stop⟩ tokens value notes left) :
    ∃ inside phrase, tokens.map Located.token = inside ++ left.map Located.token ∧
      Phrase.Spells inside phrase ∧ phrase.Means value := by
  match derived with
  | .number literal position rest number made =>
    exact ⟨[.number literal], .number literal, rfl, .number literal, .number literal number made⟩
  | .quoted literal position rest value made =>
    have quoted : Token.QuotedText literal := unmarked _ (List.mem_cons_self ..)
    obtain ⟨content, raw, rfl⟩ := (Value.of_string_iff literal value).mp made
    cases quoted with
    | single inside =>
      cases (Text.single_quoted inside).symm.trans raw
      exact ⟨_, .single content, rfl, .single content, .single content⟩
    | double inside paired =>
      have escaped := Text.unescape_escaped inside content paired
        ((Text.double_quoted inside content).mp raw)
      exact ⟨_, .double inside, rfl, .double inside, .double inside content escaped⟩
  | .table opened rest left found notes inside =>
    have later := unmarked_behind [.delimiter .openBrace] _ rest unmarked rfl
    obtain ⟨tokens, entries, split, spelled, means⟩ :=
      entries_spell stop rest left found notes later inside
    refine ⟨.delimiter .openBrace :: (tokens ++ [.delimiter .closeBrace]), .table entries, ?_,
      .table tokens entries spelled, .table entries found _ means (Keyed.of_list_ordered found)
        (Keyed.of_list_lookup found)⟩
    simp [split]
  | .sequence opened rest left found notes inside =>
    have later := unmarked_behind [.delimiter .openBracket] _ rest unmarked rfl
    obtain ⟨tokens, items, split, spelled, means⟩ :=
      elements_spell stop rest left found notes later inside
    refine ⟨.delimiter .openBracket :: (tokens ++ [.delimiter .closeBracket]), .array items, ?_,
      .array tokens items spelled, .array items found means⟩
    simp [split]
  | .complex opened rest left value read =>
    obtain ⟨re, im, x, y, p, q, r, s, split, reRead, imRead, joined⟩ :=
      (complex_iff _ _ _ _ _).mp read
    obtain ⟨first, second, reMade, imMade, rfl⟩ := (Value.of_complex_iff _ _).mp joined
    refine ⟨_, .complex re im, ?_, .complex re im,
      .complex re im x y first second reRead imRead reMade imMade⟩
    simp [split]
  | .bool value position rest => exact ⟨_, .bool value, rfl, .bool value, .bool value⟩
  | .nil position rest => exact ⟨_, .nil, rfl, .nil, .nil⟩
  | .reference word position rest left found value notes free read resolved =>
    have later := unmarked_behind [.word word] _ rest unmarked rfl
    exact absurd resolved (reference_refused stop position word rest left found later read _)
theorem entries_spell (stop : Position) (tokens left : List Located)
    (found : List (Text × Flagged Value)) (notes : Notes)
    (unmarked : ∀ token ∈ tokens.map Located.token, token.Unmarked)
    (derived : DerivesEntries ⟨.empty, true, stop⟩ tokens found notes left) :
    ∃ inside entries, tokens.map Located.token =
        inside ++ .delimiter .closeBrace :: left.map Located.token ∧
      Phrase.SpellsEntries inside entries ∧ Phrase.MeansEntries entries found := by
  match derived with
  | .close position rest => exact ⟨[], [], rfl, .nil, .nil⟩
  | .entry first key colon behind between last value found notes more named item others =>
    obtain ⟨word, free⟩ := name_word first key named
    have afterColon := unmarked_behind [first.token, .delimiter .colon] _ behind unmarked rfl
    obtain ⟨tokens, phrase, split, spelled, means⟩ :=
      derives_spells stop behind between value notes afterColon item
    obtain ⟨comma, separated, skipped⟩ := skip_comma_tokens between
    have afterItem := unmarked_behind tokens behind between afterColon split
    have afterComma := unmarked_behind comma between (skipComma between) afterItem skipped
    obtain ⟨inside, entries, rest, spelledRest, meansRest⟩ :=
      entries_spell stop (skipComma between) last found more afterComma others
    refine ⟨_, (key, phrase) :: entries, ?_,
      .cons key tokens comma inside phrase entries free spelled separated spelledRest,
      .cons key phrase entries value found means meansRest⟩
    simp [word, split, skipped, rest]
theorem elements_spell (stop : Position) (tokens left : List Located)
    (found : List (Flagged Value)) (notes : Notes)
    (unmarked : ∀ token ∈ tokens.map Located.token, token.Unmarked)
    (derived : DerivesElements ⟨.empty, true, stop⟩ tokens found notes left) :
    ∃ inside items, tokens.map Located.token =
        inside ++ .delimiter .closeBracket :: left.map Located.token ∧
      Phrase.SpellsItems inside items ∧ Phrase.MeansItems items found := by
  match derived with
  | .close position rest => exact ⟨[], [], rfl, .nil, .nil⟩
  | .last tokens position rest value notes item =>
    obtain ⟨inside, phrase, split, spelled, means⟩ :=
      derives_spells stop tokens _ value notes unmarked item
    exact ⟨inside, [phrase], split, .last inside phrase spelled,
      .cons phrase [] value [] means .nil⟩
  | .more tokens comma behind last value found notes more item others =>
    obtain ⟨inside, phrase, split, spelled, means⟩ :=
      derives_spells stop tokens _ value notes unmarked item
    have afterItem := unmarked_behind inside tokens _ unmarked split
    have afterComma := unmarked_behind [.delimiter .comma] _ behind afterItem rfl
    obtain ⟨insideRest, items, rest, spelledRest, meansRest⟩ :=
      elements_spell stop behind last found more afterComma others
    refine ⟨_, phrase :: items, ?_, .more inside insideRest phrase items spelled spelledRest,
      .cons phrase items value found means meansRest⟩
    simp [split, rest]
end

theorem skip_comma_entries (comma after more : List Token) (entries : List (Text × Phrase))
    (others : Phrase.SpellsEntries after entries)
    (separated : comma = [] ∨ comma = [.delimiter .comma]) (left : List Located)
    (shown : left.map Located.token = comma ++ (after ++ .delimiter .closeBrace :: more)) :
    (skipComma left).map Located.token = after ++ .delimiter .closeBrace :: more := by
  rcases separated with rfl | rfl
  · cases others with
    | nil =>
      obtain ⟨position, rest, rfl, behind⟩ := shown_cons _ _ _ shown
      exact shown
    | cons =>
      obtain ⟨position, rest, rfl, behind⟩ := shown_cons _ _ _ shown
      exact shown
  · obtain ⟨position, rest, rfl, behind⟩ := shown_cons _ _ _ shown
    exact behind

theorem complex_spelled_derives (scope : Scope) (re im : Text) (more : List Token) (value : Value)
    (means : (Phrase.complex re im).Means value) (tokens : List Located)
    (shown : tokens.map Located.token = .delimiter .openParen :: .number re :: .delimiter .comma ::
      .number im :: .delimiter .closeParen :: more) :
    ∃ notes left, Derives scope tokens value notes left ∧ left.map Located.token = more := by
  cases means with
  | complex _ _ x y first second reRead imRead reMade imMade =>
    obtain ⟨opened, _, rfl, afterParen⟩ := shown_cons _ _ _ shown
    obtain ⟨p, _, rfl, afterRe⟩ := shown_cons _ _ _ afterParen
    obtain ⟨q, _, rfl, afterComma⟩ := shown_cons _ _ _ afterRe
    obtain ⟨r, _, rfl, afterIm⟩ := shown_cons _ _ _ afterComma
    obtain ⟨s, left, rfl, behind⟩ := shown_cons _ _ _ afterIm
    have joined := (Value.of_complex_iff ⟨x, y⟩ _).mpr ⟨first, second, reMade, imMade, rfl⟩
    have read := (complex_iff scope.stop opened _ left _).mpr
      ⟨re, im, x, y, p, q, r, s, rfl, reRead, imRead, joined⟩
    exact ⟨_, left, .complex opened _ left _ read, behind⟩

mutual
theorem spells_derive (scope : Scope) (inside more : List Token) (phrase : Phrase) (value : Value)
    (spelled : Phrase.Spells inside phrase) (means : phrase.Means value) (tokens : List Located)
    (shown : tokens.map Located.token = inside ++ more) :
    ∃ notes left, Derives scope tokens value notes left ∧ left.map Located.token = more := by
  match spelled with
  | .number literal =>
    cases means with
    | number _ found made =>
      obtain ⟨position, left, rfl, behind⟩ := shown_cons _ _ _ shown
      exact ⟨_, left, .number literal position left found made, behind⟩
  | .single inside =>
    cases means with
    | single =>
      obtain ⟨position, left, rfl, behind⟩ := shown_cons _ _ _ shown
      have made := (Value.of_string_iff _ _).mpr ⟨inside, Text.single_quoted inside, rfl⟩
      exact ⟨_, left, .quoted _ position left _ made, behind⟩
  | .double inside =>
    cases means with
    | double _ content escaped =>
      obtain ⟨position, left, rfl, behind⟩ := shown_cons _ _ _ shown
      have raw := (Text.double_quoted inside content).mpr
        (Text.escaped_unescape inside content escaped)
      have made := (Value.of_string_iff _ _).mpr ⟨content, raw, rfl⟩
      exact ⟨_, left, .quoted _ position left _ made, behind⟩
  | .complex re im => exact complex_spelled_derives scope re im more value means tokens shown
  | .bool flag =>
    cases means with
    | bool =>
      obtain ⟨position, left, rfl, behind⟩ := shown_cons _ _ _ shown
      exact ⟨_, left, .bool flag position left, behind⟩
  | .nil =>
    cases means with
    | nil =>
      obtain ⟨position, left, rfl, behind⟩ := shown_cons _ _ _ shown
      exact ⟨_, left, .nil position left, behind⟩
  | .array tokens items inside =>
    cases means with
    | array _ values each =>
      obtain ⟨opened, rest, rfl, behind⟩ := shown_cons _ _ _ shown
      obtain ⟨notes, left, derived, same⟩ :=
        items_spelled_derive scope tokens more items values inside each rest (by simpa using behind)
      exact ⟨notes, left, .sequence opened rest left values notes derived, same⟩
  | .table tokens entries inside =>
    cases means with
    | table _ found made each ordered last =>
      obtain ⟨opened, rest, rfl, behind⟩ := shown_cons _ _ _ shown
      obtain ⟨notes, left, derived, same⟩ :=
        entries_spelled_derive scope tokens more entries found inside each rest (by simpa using behind)
      have collected : made = Keyed.ofList found :=
        Keyed.ordered_ext made _ ordered (Keyed.of_list_ordered found) fun key =>
          (last key).trans (Keyed.of_list_lookup found key).symm
      rw [collected]
      exact ⟨notes, left, .table opened rest left found notes derived, same⟩
theorem items_spelled_derive (scope : Scope) (inside more : List Token) (items : List Phrase)
    (values : List (Flagged Value)) (spelled : Phrase.SpellsItems inside items)
    (means : Phrase.MeansItems items values) (tokens : List Located)
    (shown : tokens.map Located.token = inside ++ .delimiter .closeBracket :: more) :
    ∃ notes left, DerivesElements scope tokens values notes left ∧
      left.map Located.token = more := by
  match spelled with
  | .nil =>
    cases means with
    | nil =>
      obtain ⟨position, left, rfl, behind⟩ := shown_cons _ _ _ shown
      exact ⟨_, left, .close position left, behind⟩
  | .last _ item first =>
    cases means with
    | cons _ _ value _ firstMeans others =>
      cases others with
      | nil =>
        obtain ⟨notes, left, derived, same⟩ :=
          spells_derive scope inside _ item value first firstMeans tokens shown
        obtain ⟨position, rest, rfl, behind⟩ := shown_cons _ _ _ same
        exact ⟨notes, rest, .last tokens position rest value notes derived, behind⟩
  | .more before after item items first others =>
    cases means with
    | cons _ _ value values firstMeans othersMean =>
      obtain ⟨notes, left, derived, same⟩ :=
        spells_derive scope before _ item value first firstMeans tokens (by simpa using shown)
      obtain ⟨comma, rest, rfl, behind⟩ := shown_cons _ _ _ same
      obtain ⟨later, last, derivedRest, sameRest⟩ :=
        items_spelled_derive scope after more items values others othersMean rest behind
      exact ⟨_, last, .more tokens comma rest last value values notes later derived derivedRest,
        sameRest⟩
theorem entries_spelled_derive (scope : Scope) (inside more : List Token)
    (entries : List (Text × Phrase)) (found : List (Text × Flagged Value))
    (spelled : Phrase.SpellsEntries inside entries) (means : Phrase.MeansEntries entries found)
    (tokens : List Located)
    (shown : tokens.map Located.token = inside ++ .delimiter .closeBrace :: more) :
    ∃ notes left, DerivesEntries scope tokens found notes left ∧
      left.map Located.token = more := by
  match spelled with
  | .nil =>
    cases means with
    | nil =>
      obtain ⟨position, left, rfl, behind⟩ := shown_cons _ _ _ shown
      exact ⟨_, left, .close position left, behind⟩
  | .cons key before comma after item entries free first separated others =>
    cases means with
    | cons _ _ _ value found firstMeans othersMean =>
      obtain ⟨position, _, rfl, afterKey⟩ := shown_cons _ _ _ shown
      obtain ⟨colon, rest, rfl, afterColon⟩ := shown_cons _ _ _ afterKey
      obtain ⟨notes, left, derived, same⟩ :=
        spells_derive scope before (comma ++ (after ++ .delimiter .closeBrace :: more)) item value
          first firstMeans rest (by simpa using afterColon)
      have skipped := skip_comma_entries comma after more entries others separated left same
      obtain ⟨later, last, derivedRest, sameRest⟩ :=
        entries_spelled_derive scope after more entries found others othersMean (skipComma left) skipped
      refine ⟨_, last, .entry ⟨.word key, position⟩ key colon rest left last value found notes later
        ?_ derived derivedRest, sameRest⟩
      simp [name, free]
end

end Parser

theorem TokenStream.scan_unmarked (position : Position) (source : Text) (stream : TokenStream)
    (scanned : scan position source = .ok stream)
    (unmarked : ∀ located ∈ stream.tokens, ∀ place, located.token ≠ .deferred place) :
    ∀ token ∈ stream.tokens.map Located.token, token.Unmarked := by
  have quoted := scan_all (fun token => ∀ literal, token = .quoted literal → Token.QuotedText literal)
    (by
      rintro first rest token left found literal rfl
      exact Token.read_quoted first rest left literal found) position source stream scanned
  intro token member
  obtain ⟨located, inside, rfl⟩ := List.mem_map.mp member
  cases same : located.token with
  | deferred place => exact unmarked located inside place same
  | quoted literal => exact quoted located inside literal same
  | _ => trivial

namespace Value

theorem read_spelled (source : Text) (value : Value) (stream : TokenStream)
    (scanned : TokenStream.ofSource source = .ok stream)
    (unmarked : ∀ located ∈ stream.tokens, ∀ place, located.token ≠ .deferred place)
    (done : read source = .ok value) :
    ∃ phrase, Phrase.Spells (stream.tokens.map Located.token) phrase ∧ phrase.Means value := by
  obtain ⟨again, notes, rescanned, derived⟩ := read_derives source value done
  cases scanned.symm.trans rescanned
  obtain ⟨inside, phrase, split, spelled, means⟩ := Parser.derives_spells stream.stop stream.tokens []
    value notes (TokenStream.scan_unmarked .start source stream scanned unmarked) derived
  rw [List.map_nil, List.append_nil] at split
  exact ⟨phrase, split ▸ spelled, means⟩

theorem spelled_read (source : Text) (value : Value) (stream : TokenStream) (phrase : Phrase)
    (scanned : TokenStream.ofSource source = .ok stream)
    (spelled : Phrase.Spells (stream.tokens.map Located.token) phrase) (means : phrase.Means value) :
    read source = .ok value := by
  obtain ⟨notes, left, derived, ended⟩ := Parser.spells_derive ⟨.empty, true, stream.stop⟩ _ [] phrase
    value spelled means stream.tokens (List.append_nil _).symm
  cases List.map_eq_nil_iff.mp ended
  exact derives_read source value notes stream scanned derived

theorem read_grammar (source : Text) (stream : TokenStream)
    (scanned : TokenStream.ofSource source = .ok stream)
    (unmarked : ∀ located ∈ stream.tokens, ∀ place, located.token ≠ .deferred place) :
    ((∃ value, read source = .ok value) ↔
      ∃ phrase, Phrase.Spells (stream.tokens.map Located.token) phrase ∧ phrase.Accepted) ∧
    ∀ phrase, Phrase.Spells (stream.tokens.map Located.token) phrase → phrase.Accepted →
      ∀ value, read source = .ok value ↔ phrase.Means value := by
  have accepted : ∀ phrase, Phrase.Spells (stream.tokens.map Located.token) phrase →
      phrase.Accepted → ∃ value, phrase.Means value ∧ read source = .ok value := by
    intro phrase spelled accepted
    obtain ⟨value, means⟩ := Phrase.accepted_means phrase accepted
    exact ⟨value, means, spelled_read source value stream phrase scanned spelled means⟩
  refine ⟨⟨?_, ?_⟩, ?_⟩
  · rintro ⟨value, done⟩
    obtain ⟨phrase, spelled, means⟩ := read_spelled source value stream scanned unmarked done
    exact ⟨phrase, spelled, Phrase.means_accepted phrase value means⟩
  · rintro ⟨phrase, spelled, known⟩
    obtain ⟨value, _, done⟩ := accepted phrase spelled known
    exact ⟨value, done⟩
  · intro phrase spelled known value
    constructor
    · intro done
      obtain ⟨other, means, again⟩ := accepted phrase spelled known
      cases done.symm.trans again
      exact means
    · exact spelled_read source value stream phrase scanned spelled

def repeatedSource : Text := "\x7ba: nil, a: [\"\\t\", true,]\x7d".toList

def repeatedPhrase : Phrase :=
  .table [(['a'], .nil), (['a'], .array [.double ['\\', 't'], .bool true])]

def repeated : Value :=
  .table [(['a'], ⟨false, .sequence [⟨false, .string ['"', '\\', 't', '"']⟩, ⟨false, .bool true⟩]⟩)]

theorem repeated_spelled : Phrase.Spells
    [.delimiter .openBrace, .word ['a'], .delimiter .colon, .word nilWord, .delimiter .comma,
      .word ['a'], .delimiter .colon, .delimiter .openBracket, .quoted ['"', '\\', 't', '"'],
      .delimiter .comma, .word trueWord, .delimiter .comma, .delimiter .closeBracket,
      .delimiter .closeBrace] repeatedPhrase := by
  have elements := Phrase.SpellsItems.more _ _ _ _ (.double ['\\', 't'])
    (.more _ _ _ _ (.bool true) .nil)
  have second := Phrase.SpellsEntries.cons ['a'] _ [] [] _ [] rfl (.array _ _ elements) (.inl rfl) .nil
  exact .table _ _ (.cons ['a'] _ _ _ _ _ rfl .nil (.inr rfl) second)

theorem repeated_means : repeatedPhrase.Means repeated := by
  have tab : Text.Escaped ['\\', 't'] ['\t'] := .escape 't' '\t' [] [] (by decide) .nil
  have elements := Phrase.MeansItems.cons _ _ _ _ (.double _ _ tab) (.cons _ _ _ _ (.bool true) .nil)
  refine .table _ [(['a'], ⟨false, .nil⟩), (['a'], ⟨false, .sequence _⟩)] _
    (.cons _ _ _ _ _ .nil (.cons _ _ _ _ _ (.array _ _ elements) .nil)) (by decide) ?_
  have shown : Text.canonical ['\t'] = ['"', '\\', 't', '"'] := by decide
  intro key
  by_cases same : key = ['a']
  · simp [Keyed.lookup, same, shown]
  · simp [Keyed.lookup, same]

theorem read_grammar_repeated :
    ∃ stream, TokenStream.ofSource repeatedSource = .ok stream ∧
      (∀ located ∈ stream.tokens, ∀ place, located.token ≠ .deferred place) ∧
      Phrase.Spells (stream.tokens.map Located.token) repeatedPhrase ∧ repeatedPhrase.Accepted ∧
      read repeatedSource = .ok repeated := by
  have scanned : TokenStream.ofSource repeatedSource =
      .ok ⟨[⟨.delimiter .openBrace, ⟨1, 1⟩⟩, ⟨.word ['a'], ⟨1, 2⟩⟩, ⟨.delimiter .colon, ⟨1, 3⟩⟩,
        ⟨.word nilWord, ⟨1, 5⟩⟩, ⟨.delimiter .comma, ⟨1, 8⟩⟩, ⟨.word ['a'], ⟨1, 10⟩⟩,
        ⟨.delimiter .colon, ⟨1, 11⟩⟩, ⟨.delimiter .openBracket, ⟨1, 13⟩⟩,
        ⟨.quoted ['"', '\\', 't', '"'], ⟨1, 14⟩⟩, ⟨.delimiter .comma, ⟨1, 18⟩⟩,
        ⟨.word trueWord, ⟨1, 20⟩⟩, ⟨.delimiter .comma, ⟨1, 24⟩⟩, ⟨.delimiter .closeBracket, ⟨1, 25⟩⟩,
        ⟨.delimiter .closeBrace, ⟨1, 26⟩⟩], ⟨1, 27⟩⟩ := by decide +kernel
  have accepted := Phrase.means_accepted _ _ repeated_means
  refine ⟨_, scanned, ?_, repeated_spelled, accepted, ?_⟩
  · simp
  · exact ((read_grammar _ _ scanned (by simp)).2 _ repeated_spelled accepted _).mpr repeated_means

end Value
end ParamStore

import ParamStore.Proofs.ReferenceTokens
import ParamStore.Proofs.WordPlaces

set_option autoImplicit false

namespace ParamStore
namespace Token

-- The first tokens are the second ones, where some words for nil are references with a mark.
inductive Defers : List Token → List Token → Prop where
  | none : Defers [] []
  | keep (token : Token) (rest plain : List Token) (unmarked : ∀ place, token ≠ .deferred place)
      (later : Defers rest plain) : Defers (token :: rest) (token :: plain)
  | mark (written : Reference.Written) (place : External) (rest plain : List Token)
      (later : Defers rest plain) :
      Defers (.word written.name.text :: (written.behindName ++ .deferred place :: rest))
        (.word nilWord :: plain)

theorem defers_unmarked (tokens plain : List Token) (defers : Defers tokens plain)
    (lexed : ∀ token ∈ tokens, token.Lexed) : ∀ token ∈ plain, token.Unmarked := by
  induction defers with
  | none => exact fun token member => absurd member List.not_mem_nil
  | keep token rest plain unmarked _ ih =>
    obtain ⟨first, others⟩ := List.forall_mem_cons.mp lexed
    refine List.forall_mem_cons.mpr ⟨?_, ih others⟩
    cases token with
    | deferred place => exact unmarked place rfl
    | quoted literal => exact first
    | _ => trivial
  | mark written place rest plain _ ih =>
    refine List.forall_mem_cons.mpr ⟨trivial, ih fun token member => lexed token ?_⟩
    exact List.mem_cons_of_mem _ (List.mem_append_right _ (List.mem_cons_of_mem _ member))

theorem defers_none (tokens : List Token) (defers : Defers tokens []) : tokens = [] := by
  cases defers
  rfl

theorem defers_same (tokens plain : List Token) (defers : Defers tokens plain)
    (unmarked : ∀ token ∈ tokens, ∀ place, token ≠ .deferred place) : tokens = plain := by
  induction defers with
  | none => rfl
  | keep token rest plain _ _ ih =>
    exact congrArg (token :: ·) (ih (List.forall_mem_cons.mp unmarked).2)
  | mark written place rest plain =>
    exact absurd rfl (unmarked (.deferred place) (by simp) place)

end Token

namespace Parser

open Reference

def Defers (tokens plain : List Located) : Prop :=
  Token.Defers (tokens.map Located.token) (plain.map Located.token)

theorem defers_cons (first : Located) (rest plain : List Located) (later : Defers rest plain)
    (unmarked : ∀ place, first.token ≠ .deferred place) : Defers (first :: rest) (first :: plain) :=
  .keep first.token _ _ unmarked later

theorem defers_keep (tokens : List Located) (token : Token) (plain : List Token)
    (defers : Token.Defers (tokens.map Located.token) (token :: plain)) (other : token ≠ .word nilWord) :
    ∃ position rest, tokens = ⟨token, position⟩ :: rest ∧
      Token.Defers (rest.map Located.token) plain := by
  generalize shown : tokens.map Located.token = front at defers
  cases defers with
  | keep _ rest _ _ later =>
    obtain ⟨position, left, rfl, rfl⟩ := shown_cons _ _ _ shown
    exact ⟨position, left, rfl, later⟩
  | mark => exact absurd rfl other

theorem skip_comma_defers (tokens plain : List Located) (defers : Defers tokens plain) :
    Defers (skipComma tokens) (skipComma plain) := by
  unfold skipComma
  split
  · rename_i comma rest
    cases plain with
    | nil => cases defers
    | cons first behind =>
      obtain ⟨token, position⟩ := first
      cases defers with
      | keep _ _ _ _ later => exact later
  · rename_i other
    split
    · obtain ⟨position, rest, same, later⟩ := defers_keep tokens _ _ defers nofun
      exact absurd same (other position rest)
    · exact defers

-- A table goes on with a name or its brace, so a comma before it is one that is passed over.
theorem entries_unskipped (scope : Scope) (tokens left : List Located)
    (found : List (Text × Flagged Value)) (notes : Notes)
    (derived : DerivesEntries scope tokens found notes left) : skipComma tokens = tokens := by
  cases derived with
  | close => rfl
  | entry first key colon behind _ _ _ _ _ _ named =>
    obtain ⟨token, position⟩ := first
    cases (name_word _ key named).1
    rfl

theorem defers_unskipped (tokens plain : List Located) (unskipped : skipComma plain = plain)
    (defers : Defers (skipComma tokens) plain) :
    ∃ between, skipComma between = plain ∧ Defers tokens between := by
  unfold skipComma at defers
  split at defers
  · rename_i comma rest
    exact ⟨⟨.delimiter .comma, comma⟩ :: plain, rfl, defers_cons _ rest plain defers nofun⟩
  · exact ⟨plain, unskipped, defers⟩

theorem lexed_derived (stop : Position) (tokens left : List Located) (value : Value) (notes : Notes)
    (lexed : Lexed tokens) (derived : Derives ⟨.empty, true, stop⟩ tokens value notes left) :
    Lexed left :=
  lexed_suffix tokens left lexed (derives_canonical _ Value.empty_canonical tokens left
    (lexed_words tokens lexed) value notes derived).2

-- Where nothing is bound, tokens that are read are read in the same way with nil for the references.
mutual
theorem derives_plain (stop : Position) (tokens left : List Located) (value : Value) (notes : Notes)
    (lexed : Lexed tokens) (derived : Derives ⟨.empty, true, stop⟩ tokens value notes left)
    (plainLeft : List Located) (defers : Defers left plainLeft) :
    ∃ plain more, Defers tokens plain ∧ Derives ⟨.empty, true, stop⟩ plain value more plainLeft := by
  match derived with
  | .number literal position rest number made =>
    exact ⟨_, _, defers_cons ⟨.number literal, position⟩ _ _ defers nofun,
      .number literal position plainLeft number made⟩
  | .quoted literal position rest value made =>
    exact ⟨_, _, defers_cons ⟨.quoted literal, position⟩ _ _ defers nofun,
      .quoted literal position plainLeft value made⟩
  | .table opened rest left found notes inside =>
    have later := lexed_suffix _ rest lexed (List.suffix_cons _ _)
    obtain ⟨plain, more, same, derived⟩ :=
      entries_plain stop rest left found notes later inside plainLeft defers
    exact ⟨_, more, defers_cons ⟨.delimiter .openBrace, opened⟩ _ _ same nofun,
      .table opened plain plainLeft found more derived⟩
  | .sequence opened rest left found notes inside =>
    have later := lexed_suffix _ rest lexed (List.suffix_cons _ _)
    obtain ⟨plain, more, same, derived⟩ :=
      elements_plain stop rest left found notes later inside plainLeft defers
    exact ⟨_, more, defers_cons ⟨.delimiter .openBracket, opened⟩ _ _ same nofun,
      .sequence opened plain plainLeft found more derived⟩
  | .complex opened rest left value read =>
    obtain ⟨re, im, x, y, p, q, r, s, rfl, parts⟩ := (complex_iff _ _ _ _ _).mp read
    have again := (complex_iff stop opened _ plainLeft value).mpr
      ⟨re, im, x, y, p, q, r, s, rfl, parts⟩
    have closed := defers_cons ⟨.delimiter .closeParen, s⟩ _ _ defers nofun
    have second := defers_cons ⟨.number im, r⟩ _ _ closed nofun
    have comma := defers_cons ⟨.delimiter .comma, q⟩ _ _ second nofun
    have first := defers_cons ⟨.number re, p⟩ _ _ comma nofun
    exact ⟨_, _, defers_cons ⟨.delimiter .openParen, opened⟩ _ _ first nofun,
      .complex opened _ plainLeft value again⟩
  | .bool value position rest =>
    exact ⟨_, _, defers_cons ⟨.word (encodeBool value), position⟩ _ _ defers nofun,
      .bool value position plainLeft⟩
  | .nil position rest =>
    exact ⟨_, _, defers_cons ⟨.word nilWord, position⟩ _ _ defers nofun, .nil position plainLeft⟩
  | .reference word position rest left found value notes free read resolved =>
    obtain ⟨⟨place, marked⟩, rfl, _⟩ := (resolve_marked stop position found value notes).mp resolved
    obtain ⟨first, later⟩ := List.forall_mem_cons.mp lexed
    obtain ⟨name, rfl⟩ := name_lexed word first (not_reserved word free first.2)
    obtain ⟨written, rfl, split⟩ := reference_tokens stop name rest left found place later read marked
    refine ⟨⟨.word nilWord, position⟩ :: plainLeft, _, ?_, .nil position plainLeft⟩
    rw [Defers, List.map_cons, split]
    exact .mark written place _ _ defers
theorem entries_plain (stop : Position) (tokens left : List Located)
    (found : List (Text × Flagged Value)) (notes : Notes) (lexed : Lexed tokens)
    (derived : DerivesEntries ⟨.empty, true, stop⟩ tokens found notes left)
    (plainLeft : List Located) (defers : Defers left plainLeft) :
    ∃ plain more, Defers tokens plain ∧
      DerivesEntries ⟨.empty, true, stop⟩ plain found more plainLeft := by
  match derived with
  | .close position rest =>
    exact ⟨_, _, defers_cons ⟨.delimiter .closeBrace, position⟩ _ _ defers nofun,
      .close position plainLeft⟩
  | .entry first key colon behind between last value found notes more named item others =>
    have word := (name_word first key named).1
    have afterColon := lexed_suffix _ behind lexed ⟨[_, _], rfl⟩
    have afterItem := lexed_derived stop behind between value notes afterColon item
    have afterComma := lexed_suffix between _ afterItem (skip_comma_suffix between)
    obtain ⟨plainOthers, moreOthers, sameOthers, derivedOthers⟩ :=
      entries_plain stop (skipComma between) last found more afterComma others plainLeft defers
    obtain ⟨plainBetween, unskipped, sameBetween⟩ := defers_unskipped between plainOthers
      (entries_unskipped _ _ _ _ _ derivedOthers) sameOthers
    obtain ⟨plainItem, moreItem, sameItem, derivedItem⟩ :=
      derives_plain stop behind between value notes afterColon item plainBetween sameBetween
    have behindName := defers_cons ⟨.delimiter .colon, colon⟩ _ _ sameItem nofun
    exact ⟨_, _, defers_cons first _ _ behindName (by rw [word]; exact nofun),
      .entry first key colon plainItem plainBetween plainLeft value found moreItem moreOthers named
        derivedItem (unskipped ▸ derivedOthers)⟩
theorem elements_plain (stop : Position) (tokens left : List Located)
    (found : List (Flagged Value)) (notes : Notes) (lexed : Lexed tokens)
    (derived : DerivesElements ⟨.empty, true, stop⟩ tokens found notes left)
    (plainLeft : List Located) (defers : Defers left plainLeft) :
    ∃ plain more, Defers tokens plain ∧
      DerivesElements ⟨.empty, true, stop⟩ plain found more plainLeft := by
  match derived with
  | .close position rest =>
    exact ⟨_, _, defers_cons ⟨.delimiter .closeBracket, position⟩ _ _ defers nofun,
      .close position plainLeft⟩
  | .last tokens position rest value notes item =>
    obtain ⟨plain, more, same, derived⟩ := derives_plain stop tokens _ value notes lexed item _
      (defers_cons ⟨.delimiter .closeBracket, position⟩ _ plainLeft defers nofun)
    exact ⟨plain, more, same, .last plain position plainLeft value more derived⟩
  | .more tokens comma behind last value found notes more item others =>
    have afterItem := lexed_derived stop tokens _ value notes lexed item
    have afterComma := lexed_suffix _ behind afterItem (List.suffix_cons _ _)
    obtain ⟨plainOthers, moreOthers, sameOthers, derivedOthers⟩ :=
      elements_plain stop behind last found more afterComma others plainLeft defers
    obtain ⟨plain, moreItem, same, derivedItem⟩ := derives_plain stop tokens _ value notes lexed item _
      (defers_cons ⟨.delimiter .comma, comma⟩ _ plainOthers sameOthers nofun)
    exact ⟨plain, _, same,
      .more plain comma plainOthers plainLeft value found moreItem moreOthers derivedItem derivedOthers⟩
end

theorem defers_nil (tokens plain : List Located) (position : Position)
    (defers : Defers tokens (⟨.word nilWord, position⟩ :: plain)) :
    (∃ place rest, tokens = ⟨.word nilWord, place⟩ :: rest ∧ Defers rest plain) ∨
      ∃ (written : Written) (mark : External) (place : Position) (rest : List Located)
        (more : List Token), tokens = ⟨.word written.name.text, place⟩ :: rest ∧
          rest.map Located.token = written.behindName ++ .deferred mark :: more ∧
          Token.Defers more (plain.map Located.token) := by
  rw [Defers] at defers
  generalize shown : tokens.map Located.token = front at defers
  cases defers with
  | keep _ _ _ _ later =>
    obtain ⟨place, rest, rfl, rfl⟩ := shown_cons _ _ _ shown
    exact .inl ⟨place, rest, rfl, later⟩
  | mark written mark more _ later =>
    obtain ⟨place, rest, rfl, behind⟩ := shown_cons _ _ _ shown
    exact .inr ⟨written, mark, place, rest, more, rfl, behind, later⟩

theorem unmarked_derived (stop : Position) (tokens left : List Located) (value : Value) (notes : Notes)
    (unmarked : ∀ token ∈ tokens.map Located.token, token.Unmarked)
    (derived : Derives ⟨.empty, true, stop⟩ tokens value notes left) :
    ∀ token ∈ left.map Located.token, token.Unmarked := by
  obtain ⟨inside, _, split, _⟩ := derives_spells stop tokens left value notes unmarked derived
  exact unmarked_behind inside tokens left unmarked split

-- And tokens without references are read in the same way with references for nil.
mutual
theorem plain_derives (stop : Position) (plain plainLeft : List Located) (value : Value) (notes : Notes)
    (unmarked : ∀ token ∈ plain.map Located.token, token.Unmarked)
    (derived : Derives ⟨.empty, true, stop⟩ plain value notes plainLeft) (tokens : List Located)
    (defers : Defers tokens plain) :
    ∃ left more, Defers left plainLeft ∧ Derives ⟨.empty, true, stop⟩ tokens value more left := by
  match derived with
  | .number literal position rest number made =>
    obtain ⟨place, left, rfl, later⟩ := defers_keep tokens _ _ defers nofun
    exact ⟨left, _, later, .number literal place left number made⟩
  | .quoted literal position rest value made =>
    obtain ⟨place, left, rfl, later⟩ := defers_keep tokens _ _ defers nofun
    exact ⟨left, _, later, .quoted literal place left value made⟩
  | .table opened rest left found notes inside =>
    obtain ⟨place, behind, rfl, later⟩ := defers_keep tokens _ _ defers nofun
    obtain ⟨last, more, same, derived⟩ := plain_entries stop rest left found notes
      (unmarked_behind [.delimiter .openBrace] _ rest unmarked rfl) inside behind later
    exact ⟨last, more, same, .table place behind last found more derived⟩
  | .sequence opened rest left found notes inside =>
    obtain ⟨place, behind, rfl, later⟩ := defers_keep tokens _ _ defers nofun
    obtain ⟨last, more, same, derived⟩ := plain_elements stop rest left found notes
      (unmarked_behind [.delimiter .openBracket] _ rest unmarked rfl) inside behind later
    exact ⟨last, more, same, .sequence place behind last found more derived⟩
  | .complex opened rest left value read =>
    obtain ⟨re, im, x, y, p, q, r, s, rfl, parts⟩ := (complex_iff _ _ _ _ _).mp read
    obtain ⟨opening, _, rfl, afterParen⟩ := defers_keep tokens _ _ defers nofun
    obtain ⟨first, _, rfl, afterRe⟩ := defers_keep _ _ _ afterParen nofun
    obtain ⟨comma, _, rfl, afterComma⟩ := defers_keep _ _ _ afterRe nofun
    obtain ⟨second, _, rfl, afterIm⟩ := defers_keep _ _ _ afterComma nofun
    obtain ⟨closing, last, rfl, later⟩ := defers_keep _ _ _ afterIm nofun
    have again := (complex_iff stop opening _ last value).mpr
      ⟨re, im, x, y, first, comma, second, closing, rfl, parts⟩
    exact ⟨last, _, later, .complex opening _ last value again⟩
  | .bool value position rest =>
    have other : Token.word (encodeBool value) ≠ .word nilWord := by cases value <;> decide
    obtain ⟨place, left, rfl, later⟩ := defers_keep tokens _ _ defers other
    exact ⟨left, _, later, .bool value place left⟩
  | .nil position rest =>
    rcases defers_nil tokens rest position defers with
      ⟨place, left, rfl, later⟩ | ⟨written, mark, place, behind, more, rfl, shown, later⟩
    · exact ⟨left, _, later, .nil place left⟩
    · obtain ⟨left, rfl, read⟩ := reference_marked stop written mark more behind shown
      exact ⟨left, _, later, .reference written.name.text place behind left _ .nil _
        (reserved_free _ written.name.free) read
        ((resolve_marked stop place _ .nil _).mpr ⟨⟨mark, rfl⟩, rfl, rfl⟩)⟩
  | .reference word position rest left found value notes free read resolved =>
    have later := unmarked_behind [.word word] _ rest unmarked rfl
    exact absurd resolved (reference_refused stop position word rest left found later read _)
theorem plain_entries (stop : Position) (plain plainLeft : List Located)
    (found : List (Text × Flagged Value)) (notes : Notes)
    (unmarked : ∀ token ∈ plain.map Located.token, token.Unmarked)
    (derived : DerivesEntries ⟨.empty, true, stop⟩ plain found notes plainLeft) (tokens : List Located)
    (defers : Defers tokens plain) :
    ∃ left more, Defers left plainLeft ∧
      DerivesEntries ⟨.empty, true, stop⟩ tokens found more left := by
  match derived with
  | .close position rest =>
    obtain ⟨place, left, rfl, later⟩ := defers_keep tokens _ _ defers nofun
    exact ⟨left, _, later, .close place left⟩
  | .entry first key colon behind between last value found notes more named item others =>
    obtain ⟨word, free⟩ := name_word first key named
    have other : first.token ≠ .word nilWord := by
      rw [word]
      rintro ⟨⟩
      cases free
    obtain ⟨place, _, rfl, afterName⟩ := defers_keep tokens _ _ defers other
    obtain ⟨colonPlace, left, rfl, afterColon⟩ := defers_keep _ _ _ afterName nofun
    have unmarkedItem := unmarked_behind [first.token, .delimiter .colon] _ behind unmarked rfl
    obtain ⟨leftItem, moreItem, sameItem, derivedItem⟩ :=
      plain_derives stop behind between value notes unmarkedItem item left afterColon
    have unmarkedBetween := unmarked_derived stop behind between value notes unmarkedItem item
    obtain ⟨comma, _, skipped⟩ := skip_comma_tokens between
    obtain ⟨leftOthers, moreOthers, sameOthers, derivedOthers⟩ :=
      plain_entries stop (skipComma between) last found more
        (unmarked_behind comma between _ unmarkedBetween skipped) others (skipComma leftItem)
        (skip_comma_defers leftItem between sameItem)
    refine ⟨leftOthers, _, sameOthers, .entry ⟨first.token, place⟩ key colonPlace left leftItem
      leftOthers value found moreItem moreOthers ?_ derivedItem derivedOthers⟩
    rw [word]
    simp [name, free]
theorem plain_elements (stop : Position) (plain plainLeft : List Located)
    (found : List (Flagged Value)) (notes : Notes)
    (unmarked : ∀ token ∈ plain.map Located.token, token.Unmarked)
    (derived : DerivesElements ⟨.empty, true, stop⟩ plain found notes plainLeft) (tokens : List Located)
    (defers : Defers tokens plain) :
    ∃ left more, Defers left plainLeft ∧
      DerivesElements ⟨.empty, true, stop⟩ tokens found more left := by
  match derived with
  | .close position rest =>
    obtain ⟨place, left, rfl, later⟩ := defers_keep tokens _ _ defers nofun
    exact ⟨left, _, later, .close place left⟩
  | .last plain position rest value notes item =>
    obtain ⟨left, more, same, derived⟩ :=
      plain_derives stop plain _ value notes unmarked item tokens defers
    obtain ⟨place, last, rfl, later⟩ := defers_keep left _ _ same nofun
    exact ⟨last, more, later, .last tokens place last value more derived⟩
  | .more plain comma behind last value found notes more item others =>
    obtain ⟨left, moreItem, same, derivedItem⟩ :=
      plain_derives stop plain _ value notes unmarked item tokens defers
    obtain ⟨place, rest, rfl, later⟩ := defers_keep left _ _ same nofun
    have unmarkedRest := unmarked_derived stop plain _ value notes unmarked item
    obtain ⟨leftOthers, moreOthers, sameOthers, derivedOthers⟩ :=
      plain_elements stop behind last found more
        (unmarked_behind [.delimiter .comma] _ behind unmarkedRest rfl) others rest later
    exact ⟨leftOthers, _, sameOthers,
      .more tokens place rest leftOthers value found moreItem moreOthers derivedItem derivedOthers⟩
end

end Parser

namespace Value

theorem read_defers (source : Text) (value : Value) :
    read source = .ok value ↔ ∃ stream plain phrase, TokenStream.ofSource source = .ok stream ∧
      Token.Defers (stream.tokens.map Located.token) plain ∧ Phrase.Spells plain phrase ∧
      phrase.Means value := by
  constructor
  · intro done
    obtain ⟨stream, notes, scanned, derived⟩ := read_derives source value done
    have lexed := TokenStream.scan_lexed .start source stream scanned
    obtain ⟨plain, more, defers, derivedPlain⟩ :=
      Parser.derives_plain stream.stop stream.tokens [] value notes lexed derived [] .none
    have unmarked := Token.defers_unmarked _ _ defers (List.forall_mem_map.mpr lexed)
    obtain ⟨inside, phrase, split, spelled, means⟩ :=
      Parser.derives_spells stream.stop plain [] value more unmarked derivedPlain
    rw [List.map_nil, List.append_nil] at split
    exact ⟨stream, _, phrase, scanned, defers, split ▸ spelled, means⟩
  · rintro ⟨stream, plain, phrase, scanned, defers, spelled, means⟩
    have placed : (plain.map fun token => Located.mk token .start).map Located.token = plain := by
      simp [Function.comp_def]
    rw [← placed] at defers
    obtain ⟨notes, left, derived, ended⟩ := Parser.spells_derive ⟨.empty, true, stream.stop⟩ plain []
      phrase value spelled means _ (placed.trans (List.append_nil _).symm)
    cases List.map_eq_nil_iff.mp ended
    have lexed := TokenStream.scan_lexed .start source stream scanned
    have unmarked := Token.defers_unmarked _ _ defers (List.forall_mem_map.mpr lexed)
    obtain ⟨last, more, same, derivedTokens⟩ :=
      Parser.plain_derives stream.stop _ [] value notes unmarked derived stream.tokens defers
    cases List.map_eq_nil_iff.mp (Token.defers_none _ same)
    exact derives_read source value more stream scanned derivedTokens

theorem read_references (source : Text) (value : Value) :
    (read source = .ok value ↔ ∃ stream plain phrase, TokenStream.ofSource source = .ok stream ∧
      Token.Defers (stream.tokens.map Located.token) plain ∧ Phrase.Spells plain phrase ∧
      phrase.Means value) ∧
    (read source = .ok value → ∃ stream plain, TokenStream.ofSource source = .ok stream ∧
      Token.Defers (stream.tokens.map Located.token) plain ∧ Token.PlainWords plain ∧
      ((∀ token ∈ stream.tokens.map Located.token, ∀ place, token ≠ .deferred place) →
        Token.PlainWords (stream.tokens.map Located.token))) := by
  refine ⟨read_defers source value, fun done => ?_⟩
  obtain ⟨stream, plain, phrase, scanned, defers, spelled, _⟩ := (read_defers source value).mp done
  have plainWords := Phrase.spelled_words plain phrase spelled
  refine ⟨stream, plain, scanned, defers, plainWords, fun unmarked => ?_⟩
  rw [Token.defers_same _ plain defers unmarked]
  exact plainWords

theorem read_references_left :
    ∃ stream plain, TokenStream.ofSource "[nil, a(1).b[0]@DB]".toList = .ok stream ∧
      read "[nil, a(1).b[0]@DB]".toList = .ok (.sequence [⟨false, .nil⟩, ⟨false, .nil⟩]) ∧
      Token.Defers (stream.tokens.map Located.token) plain ∧ Token.PlainWords plain := by
  have done : read "[nil, a(1).b[0]@DB]".toList =
      .ok (.sequence [⟨false, .nil⟩, ⟨false, .nil⟩]) := by decide +kernel
  obtain ⟨stream, plain, scanned, defers, words, _⟩ := (read_references _ _).2 done
  exact ⟨stream, plain, scanned, done, defers, words⟩

theorem deferred_reads :
    read "x@file".toList = .ok .nil ∧
      TokenStream.ofSource "x@file".toList =
        .ok ⟨[⟨.word ['x'], ⟨1, 1⟩⟩, ⟨.deferred .file, ⟨1, 2⟩⟩], ⟨1, 7⟩⟩ :=
  ⟨by decide +kernel, by decide +kernel⟩

end Value
end ParamStore

import ParamStore.Proofs.ParserSteps
import ParamStore.Proofs.SourceReread
import ParamStore.Proofs.SourceTokens

set_option autoImplicit false

namespace ParamStore
namespace Parser

theorem complex_reads (stop opened : Position) (re im : Number)
    (canonical : (Value.complex re im).Canonical) (tokens : List Located) (more : List Token)
    (shown : tokens.map Located.token = .number re.text :: .delimiter .comma :: .number im.text ::
      .delimiter .closeParen :: more) :
    ∃ left, complex stop opened tokens = .ok (.complex re im, left) ∧
      left.map Located.token = more := by
  obtain ⟨_, _, rfl, afterRe⟩ := shown_cons _ _ _ shown
  obtain ⟨_, _, rfl, afterComma⟩ := shown_cons _ _ _ afterRe
  obtain ⟨_, _, rfl, afterIm⟩ := shown_cons _ _ _ afterComma
  obtain ⟨_, left, rfl, behind⟩ := shown_cons _ _ _ afterIm
  obtain ⟨⟨x, reMade⟩, y, imMade⟩ := canonical
  obtain ⟨a, reRead, reAgain⟩ := Number.of_float_stable x re reMade
  obtain ⟨b, imRead, imAgain⟩ := Number.of_float_stable y im imMade
  have joined := (Value.of_complex_iff ⟨a, b⟩ _).mpr ⟨re, im, reAgain, imAgain, rfl⟩
  exact ⟨left, (complex_iff _ _ _ _ _).mpr
    ⟨_, _, a, b, _, _, _, _, rfl, reRead, imRead, joined⟩, behind⟩

def following : List (List Token) → List Token → List Token
  | [], ending => ending
  | item :: rest, ending => .delimiter .comma :: (Token.separated (item :: rest) ++ ending)

theorem separated_cons (item : List Token) (rest : List (List Token)) (ending : List Token) :
    Token.separated (item :: rest) ++ ending = item ++ following rest ending := by
  cases rest with
  | nil => rfl
  | cons next later => simp [Token.separated, following]

-- A comma is skipped where there is one, so the rest looks the same behind every entry.
theorem skip_following (rest : List (List Token)) (tokens : List Located) (more : List Token)
    (shown : tokens.map Located.token = following rest (.delimiter .closeBrace :: more)) :
    (skipComma tokens).map Located.token =
      Token.separated rest ++ .delimiter .closeBrace :: more := by
  cases rest with
  | nil =>
    obtain ⟨_, _, rfl, _⟩ := shown_cons _ _ _ shown
    exact shown
  | cons item later =>
    obtain ⟨_, _, rfl, behind⟩ := shown_cons _ _ _ shown
    exact behind

theorem sequence_tokens (items : List (Flagged Value)) (more : List Token) :
    (Value.sequence items).tokens ++ more = .delimiter .openBracket ::
      (Token.separated (Value.itemTokens items) ++ .delimiter .closeBracket :: more) := by
  simp [Value.tokens]

theorem table_tokens (entries : List (Text × Flagged Value)) (more : List Token) :
    (Value.table entries).tokens ++ more = .delimiter .openBrace ::
      (Token.separated (Value.entryTokens entries) ++ .delimiter .closeBrace :: more) := by
  simp [Value.tokens]

mutual
theorem value_derives (scope : Scope) (value other : Value) (canonical : value.Canonical)
    (again : value.Rereads other) (tokens : List Located) (more : List Token)
    (shown : tokens.map Located.token = value.tokens ++ more) :
    ∃ left, Derives scope tokens other .none left ∧ left.map Located.token = more := by
  match again with
  | .nil =>
    obtain ⟨position, rest, rfl, behind⟩ := shown_cons _ _ _ shown
    exact ⟨rest, .nil position rest, behind⟩
  | .bool value =>
    obtain ⟨position, rest, rfl, behind⟩ := shown_cons _ _ _ shown
    exact ⟨rest, .bool value position rest, behind⟩
  | .number value other made =>
    obtain ⟨position, rest, rfl, behind⟩ := shown_cons _ _ _ shown
    exact ⟨rest, .number value.text position rest other made, behind⟩
  | .complex re im =>
    obtain ⟨position, rest, rfl, inside⟩ := shown_cons _ _ _ shown
    obtain ⟨left, read, behind⟩ := complex_reads scope.stop position re im canonical rest more inside
    exact ⟨left, .complex position rest left _ read, behind⟩
  | .string text =>
    obtain ⟨content, rfl⟩ := canonical
    obtain ⟨position, rest, rfl, behind⟩ := shown_cons _ _ _ shown
    refine ⟨rest, .quoted _ position rest _ ?_, behind⟩
    rw [Value.quoted_canonical]
    exact Value.of_quoted_escape content
  | .sequence items others each =>
    rw [sequence_tokens] at shown
    obtain ⟨position, rest, rfl, inside⟩ := shown_cons _ _ _ shown
    obtain ⟨left, derived, behind⟩ := items_derive scope items others canonical each rest more inside
    exact ⟨left, .sequence position rest left others .none derived, behind⟩
  | .table entries others each =>
    rw [table_tokens] at shown
    obtain ⟨position, rest, rfl, inside⟩ := shown_cons _ _ _ shown
    obtain ⟨left, derived, behind⟩ :=
      entries_derive scope entries others canonical.2 each rest more inside
    have made := Derives.table position rest left others .none derived
    rw [Keyed.of_list_self others (Value.entries_reread_ordered entries others canonical.1 each)]
      at made
    exact ⟨left, made, behind⟩
theorem items_derive (scope : Scope) (items others : List (Flagged Value))
    (canonical : Value.ItemsCanonical items) (again : Value.ItemsReread items others)
    (tokens : List Located) (more : List Token)
    (shown : tokens.map Located.token =
      Token.separated (Value.itemTokens items) ++ .delimiter .closeBracket :: more) :
    ∃ left, DerivesElements scope tokens others .none left ∧ left.map Located.token = more := by
  match again with
  | .nil =>
    obtain ⟨position, rest, rfl, behind⟩ := shown_cons _ _ _ shown
    exact ⟨rest, .close position rest, behind⟩
  | .cons flag value other tail others item rest =>
    rw [Value.itemTokens, separated_cons] at shown
    obtain ⟨between, derived, after⟩ := value_derives scope value other canonical.2.1 item tokens _ shown
    match tail, rest with
    | [], .nil =>
      obtain ⟨position, last, rfl, behind⟩ := shown_cons _ _ _ after
      exact ⟨last, .last tokens position last other .none derived, behind⟩
    | next :: tail, rest =>
      obtain ⟨position, behind, rfl, later⟩ := shown_cons _ _ _ after
      obtain ⟨left, following, ends⟩ :=
        items_derive scope (next :: tail) others canonical.2.2 rest behind more later
      exact ⟨left, .more tokens position behind left other others .none .none derived following, ends⟩
theorem entries_derive (scope : Scope) (entries others : List (Text × Flagged Value))
    (canonical : Value.EntriesCanonical entries) (again : Value.EntriesReread entries others)
    (tokens : List Located) (more : List Token)
    (shown : tokens.map Located.token =
      Token.separated (Value.entryTokens entries) ++ .delimiter .closeBrace :: more) :
    ∃ left, DerivesEntries scope tokens others .none left ∧ left.map Located.token = more := by
  match again with
  | .nil =>
    obtain ⟨position, rest, rfl, behind⟩ := shown_cons _ _ _ shown
    exact ⟨rest, .close position rest, behind⟩
  | .cons key flag value other tail others item rest =>
    rw [Value.entryTokens, separated_cons] at shown
    obtain ⟨place, named, rfl, afterName⟩ := shown_cons _ _ _ shown
    obtain ⟨colon, behind, rfl, afterColon⟩ := shown_cons _ _ _ afterName
    obtain ⟨between, derived, after⟩ :=
      value_derives scope value other canonical.2.2.1 item behind _ afterColon
    obtain ⟨left, following, ends⟩ := entries_derive scope tail others canonical.2.2.2 rest
      (skipComma between) more (skip_following _ between more after)
    have free : name ⟨.word key, place⟩ = .ok key := by simp [name, canonical.1.2]
    exact ⟨left, .entry _ key colon behind between left other others .none .none free derived following,
      ends⟩
end

theorem bool_value (first second : Bool) (same : encodeBool first = encodeBool second) :
    first = second := by
  cases first <;> cases second <;> first | rfl | exact absurd same (by decide)

theorem bool_reserved (value : Bool) :
    encodeBool value ∈ [trueWord, falseWord, nilWord, beginProlog, endProlog] := by
  cases value
  · exact List.mem_cons_of_mem _ (List.mem_cons_self ..)
  · exact List.mem_cons_self ..

theorem bool_no_nil (value : Bool) : encodeBool value ≠ nilWord := by
  cases value
  · decide
  · decide

theorem tokens_open (value : Value) (rest : List Token) (tokens : List Located)
    (shown : tokens.map Located.token = value.tokens ++ rest) (position : Position)
    (behind : List Located) : tokens ≠ ⟨.delimiter .closeBracket, position⟩ :: behind := by
  rintro rfl
  cases value <;> cases shown

mutual
theorem derives_value (scope : Scope) (value other : Value) (canonical : value.Canonical)
    (tokens left : List Located) (more : List Token) (notes : Notes)
    (shown : tokens.map Located.token = value.tokens ++ more)
    (derived : Derives scope tokens other notes left) :
    value.Rereads other ∧ left.map Located.token = more := by
  cases value with
  | nil =>
    obtain ⟨position, rest, rfl, behind⟩ := shown_cons _ _ _ shown
    generalize word : nilWord = text at derived
    cases derived with
    | bool flag => exact absurd word.symm (bool_no_nil flag)
    | nil => exact ⟨.nil, behind⟩
    | reference _ _ _ _ _ _ _ free => exact absurd (by simp [← word]) free
  | bool value =>
    obtain ⟨position, rest, rfl, behind⟩ := shown_cons _ _ _ shown
    generalize word : encodeBool value = text at derived
    cases derived with
    | bool flag =>
      cases bool_value value flag word
      exact ⟨.bool value, behind⟩
    | nil => exact absurd word (bool_no_nil value)
    | reference _ _ _ _ _ _ _ free => exact absurd (word ▸ bool_reserved value) free
  | number value =>
    obtain ⟨position, rest, rfl, behind⟩ := shown_cons _ _ _ shown
    cases derived with
    | number _ _ _ number made => exact ⟨.number value number made, behind⟩
  | complex re im =>
    obtain ⟨position, rest, rfl, inside⟩ := shown_cons _ _ _ shown
    obtain ⟨last, read, behind⟩ := complex_reads scope.stop position re im canonical rest more inside
    cases derived with
    | complex _ _ _ _ found =>
      cases read.symm.trans found
      exact ⟨.complex re im, behind⟩
  | string text =>
    obtain ⟨content, rfl⟩ := canonical
    obtain ⟨position, rest, rfl, behind⟩ := shown_cons _ _ _ shown
    cases derived with
    | quoted _ _ _ _ made =>
      rw [Value.quoted_canonical, Value.of_quoted_escape] at made
      cases made
      exact ⟨.string content.canonical, behind⟩
  | sequence items =>
    rw [sequence_tokens] at shown
    obtain ⟨position, rest, rfl, inside⟩ := shown_cons _ _ _ shown
    cases derived with
    | sequence _ _ _ found _ each =>
      obtain ⟨same, behind⟩ := derives_items scope items found canonical rest left more notes inside each
      exact ⟨.sequence items found same, behind⟩
  | table entries =>
    rw [table_tokens] at shown
    obtain ⟨position, rest, rfl, inside⟩ := shown_cons _ _ _ shown
    cases derived with
    | table _ _ _ found _ each =>
      obtain ⟨same, behind⟩ :=
        derives_entries scope entries found canonical.2 rest left more notes inside each
      rw [Keyed.of_list_self found (Value.entries_reread_ordered entries found canonical.1 same)]
      exact ⟨.table entries found same, behind⟩
theorem derives_items (scope : Scope) (items others : List (Flagged Value))
    (canonical : Value.ItemsCanonical items) (tokens left : List Located) (more : List Token)
    (notes : Notes)
    (shown : tokens.map Located.token =
      Token.separated (Value.itemTokens items) ++ .delimiter .closeBracket :: more)
    (derived : DerivesElements scope tokens others notes left) :
    Value.ItemsReread items others ∧ left.map Located.token = more := by
  match items with
  | [] =>
    obtain ⟨position, rest, rfl, behind⟩ := shown_cons _ _ _ shown
    cases derived with
    | close => exact ⟨.nil, behind⟩
    | last _ _ _ _ _ item =>
      obtain ⟨_, _, same, unclosed⟩ := derives_head scope _ _ _ _ item
      cases same
      exact absurd rfl unclosed
    | more _ _ _ _ _ _ _ _ item =>
      obtain ⟨_, _, same, unclosed⟩ := derives_head scope _ _ _ _ item
      cases same
      exact absurd rfl unclosed
  | ⟨flag, value⟩ :: tail =>
    rw [Value.itemTokens, separated_cons] at shown
    cases derived with
    | close position => exact absurd rfl (tokens_open value _ _ shown position left)
    | last _ position rest other _ item =>
      obtain ⟨same, after⟩ := derives_value scope value other canonical.2.1 tokens _ _ _ shown item
      match tail with
      | [] =>
        cases after
        exact ⟨.cons flag value other [] [] same .nil, rfl⟩
      | _ :: _ => cases after
    | more _ comma behind _ other found _ _ item others =>
      obtain ⟨same, after⟩ := derives_value scope value other canonical.2.1 tokens _ _ _ shown item
      match tail with
      | [] => cases after
      | next :: tail =>
        obtain ⟨_, _, split, later⟩ := shown_cons _ _ _ after
        cases split
        obtain ⟨rest, ends⟩ :=
          derives_items scope (next :: tail) found canonical.2.2 behind left more _ later others
        exact ⟨.cons flag value other (next :: tail) found same rest, ends⟩
theorem derives_entries (scope : Scope) (entries others : List (Text × Flagged Value))
    (canonical : Value.EntriesCanonical entries) (tokens left : List Located) (more : List Token)
    (notes : Notes)
    (shown : tokens.map Located.token =
      Token.separated (Value.entryTokens entries) ++ .delimiter .closeBrace :: more)
    (derived : DerivesEntries scope tokens others notes left) :
    Value.EntriesReread entries others ∧ left.map Located.token = more := by
  match entries with
  | [] =>
    obtain ⟨position, rest, rfl, behind⟩ := shown_cons _ _ _ shown
    cases derived with
    | close => exact ⟨.nil, behind⟩
    | entry _ _ _ _ _ _ _ _ _ _ named => cases named
  | (key, ⟨flag, value⟩) :: tail =>
    rw [Value.entryTokens, separated_cons] at shown
    obtain ⟨place, rest, rfl, afterName⟩ := shown_cons _ _ _ shown
    obtain ⟨colon, behind, rfl, afterColon⟩ := shown_cons _ _ _ afterName
    cases derived with
    | entry _ word _ _ between _ other found _ _ named item others =>
      have same : key = word := Token.word.inj (name_word _ word named).1
      subst same
      obtain ⟨again, after⟩ :=
        derives_value scope value other canonical.2.2.1 behind between _ _ afterColon item
      have skipped := skip_following _ between more after
      obtain ⟨rest, ends⟩ :=
        derives_entries scope tail found canonical.2.2.2 (skipComma between) left more _ skipped others
      exact ⟨.cons key flag value other tail found again rest, ends⟩
end

end Parser
end ParamStore

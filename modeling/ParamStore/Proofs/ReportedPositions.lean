import ParamStore.Proofs.FaultPositions
import ParamStore.Proofs.LosslessTokens

set_option autoImplicit false

namespace ParamStore
namespace Token

def Shown (first : Char) (rest : Text) : Prop :=
  isGap first = false ∧ ¬ (first = '#' ∨ (first = '/' ∧ rest.head? = some '/'))

theorem shown_skipped (position : Position) (first : Char) (rest : Text) (shown : Shown first rest) :
    skipGap false position (first :: rest) = (position, first :: rest) := by
  rw [skipGap, if_neg Bool.false_ne_true, if_neg (Bool.eq_false_iff.mp shown.1), if_neg shown.2]

theorem skipped_shown (inComment : Bool) (position start : Position) (text : Text) (first : Char)
    (rest : Text) (skipped : skipGap inComment position text = (start, first :: rest)) :
    Shown first rest := by
  induction text generalizing inComment position with
  | nil => cases skipped
  | cons c more ih =>
    rw [skipGap] at skipped
    split at skipped
    · exact ih _ _ skipped
    · split at skipped
      · exact ih _ _ skipped
      · rename_i visible
        split at skipped
        · exact ih _ _ skipped
        · rename_i noComment
          cases skipped
          exact ⟨Bool.eq_false_iff.mpr visible, noComment⟩

theorem skip_layout (position : Position) (gap : Text) (first : Char) (rest : Text) (layout : Layout gap)
    (shown : Shown first rest) :
    skipGap false position (gap ++ first :: rest) = (position.after gap, first :: rest) := by
  obtain ⟨start, passed⟩ := layout_passes gap layout position (first :: rest)
  obtain ⟨skipped, join, place, _⟩ := skip_gap_spells false position (gap ++ first :: rest)
  rw [passed, shown_skipped start first rest shown] at join place ⊢
  rw [List.append_cancel_right join]
  exact congrArg (·, first :: rest) place

end Token

namespace TokenStream

-- Behind the first text the second cannot be read on: tokens with the gaps before them, and then a lexeme
-- that is none.
inductive Breaks (fault : Fault) : Text → Text → Prop where
  | here (gap : Text) (first : Char) (rest : Text) (layout : Token.Layout gap)
      (shown : Token.Shown first rest) (refused : Token.read first rest = .error fault) :
      Breaks fault gap (gap ++ first :: rest)
  | later (gap : Text) (first : Char) (rest : Text) (token : Token) (left before : Text)
      (layout : Token.Layout gap) (taken : Token.read first rest = .ok (token, left))
      (further : Breaks fault before left) :
      Breaks fault (gap ++ (token.text ++ before)) (gap ++ first :: rest)

theorem breaks_fails (fault : Fault) (before source : Text) (position : Position)
    (breaks : Breaks fault before source) :
    scan position source = .error (.parse (position.after before) fault) := by
  induction breaks generalizing position with
  | here gap first rest layout shown refused =>
    rw [scan_step, Token.skip_layout position gap first rest layout shown]
    simp only [refused]
  | later gap first rest token left before layout taken _ ih =>
    have visible := Token.read_visible first rest left token taken
    have shown : Token.Shown first rest :=
      ⟨visible.1, fun opens => opens.elim visible.2.1 fun slashes => visible.2.2 slashes.1⟩
    rw [scan_step, Token.skip_layout position gap first rest layout shown]
    simp only [taken, ih]
    rw [← Position.after_append, ← Position.after_append]
    rfl

theorem scan_breaks (position : Position) (source : Text) (error : Error) :
    scan position source = .error error ↔
      ∃ fault before, Breaks fault before source ∧ error = .parse (position.after before) fault := by
  constructor
  · intro failed
    fun_induction scan position source with
    | case1 => cases failed
    | case2 position source start first rest skipped fault refused =>
      cases failed
      obtain ⟨gap, rfl, rfl, layout⟩ := Token.skipped_layout position start source first rest skipped
      exact ⟨fault, gap, .here gap first rest layout (Token.skipped_shown _ _ _ _ _ _ skipped) refused, rfl⟩
    | case3 position source start first rest skipped token left taken ih =>
      obtain ⟨gap, rfl, rfl, layout⟩ := Token.skipped_layout position start source first rest skipped
      cases scanned : scan ((position.after gap).after token.text) left with
      | ok stream =>
        rw [scanned] at failed
        cases failed
      | error cause =>
        rw [scanned] at failed
        cases failed
        obtain ⟨fault, before, breaks, rfl⟩ := ih scanned
        refine ⟨fault, _, .later gap first rest token left before layout taken breaks, ?_⟩
        rw [Position.after_append, Position.after_append]
  · rintro ⟨fault, before, breaks, rfl⟩
    exact breaks_fails fault before source position breaks

theorem breaks_inside (fault : Fault) (before source : Text) (breaks : Breaks fault before source) :
    ∃ first rest, source = before ++ first :: rest ∧ Token.read first rest = .error fault := by
  induction breaks with
  | here gap first rest _ _ refused => exact ⟨first, rest, rfl, refused⟩
  | later gap first rest token left before _ taken _ ih =>
    obtain ⟨next, more, split, refused⟩ := ih
    obtain ⟨body, text, behind, _⟩ := Token.read_cut first rest left token taken
    refine ⟨next, more, ?_, refused⟩
    rw [text, behind, split]
    simp

-- Where something can be reported in a source: where one of its tokens stands, behind the last character,
-- or, if it cannot be tokenized, where the lexeme starts that is no token. The place is counted from the text
-- before it.
inductive Place (source : Text) : Position → Prop where
  | token (stream : TokenStream) (token : Token) (before left : Text)
      (scanned : ofSource source = .ok stream) (member : ⟨token, .behind before⟩ ∈ stream.tokens)
      (split : source = before ++ (token.text ++ left)) : Place source (.behind before)
  | stop (stream : TokenStream) (scanned : ofSource source = .ok stream) : Place source (.behind source)
  | lexeme (fault : Fault) (before : Text) (breaks : Breaks fault before source) :
      Place source (.behind before)

theorem place_behind (source : Text) (position : Position) (place : Place source position) :
    ∃ before left, source = before ++ left ∧ position = .behind before := by
  cases place with
  | token _ token before left _ _ split => exact ⟨before, token.text ++ left, split, rfl⟩
  | stop => exact ⟨source, [], (List.append_nil source).symm, rfl⟩
  | lexeme fault before breaks =>
    obtain ⟨first, rest, split, _⟩ := breaks_inside fault before source breaks
    exact ⟨before, first :: rest, split, rfl⟩

theorem place_counted (source : Text) (position : Position) (place : Place source position) :
    1 ≤ position.line ∧ 1 ≤ position.column := by
  obtain ⟨before, _, _, rfl⟩ := place_behind source position place
  exact ⟨Nat.le_add_right 1 _, Nat.le_add_right 1 _⟩

theorem located_inside (before : Text) (pieces : List Piece) (last : Text) :
    ∀ located ∈ Piece.located before pieces, ∃ front left,
      List.flatMap Piece.text pieces ++ last = front ++ (located.token.text ++ left) ∧
        located.position = .behind (before ++ front) := by
  induction pieces generalizing before with
  | nil => exact fun located member => absurd member List.not_mem_nil
  | cons piece rest ih =>
    intro located member
    rcases List.mem_cons.mp member with rfl | later
    · exact ⟨piece.gap, List.flatMap Piece.text rest ++ last, by simp [Piece.text], rfl⟩
    · obtain ⟨front, left, split, place⟩ := ih _ located later
      refine ⟨piece.text ++ front, left, ?_, by rw [place, List.append_assoc]⟩
      rw [List.flatMap_cons, List.append_assoc, split, List.append_assoc]

theorem token_place (source : Text) (stream : TokenStream) (scanned : ofSource source = .ok stream) :
    ∀ located ∈ stream.tokens, Place source located.position := by
  obtain ⟨pieces, last, rfl, _, tokens, _⟩ := scan_pieces [] .start rfl source stream scanned
  rintro ⟨token, position⟩ member
  obtain ⟨front, left, split, rfl⟩ := located_inside [] pieces last _ (tokens ▸ member)
  exact .token stream token front left scanned member split

theorem stop_place (source : Text) (stream : TokenStream) (scanned : ofSource source = .ok stream) :
    Place source stream.stop := by
  obtain ⟨_, _, _, _, _, stop⟩ := scan_pieces [] .start rfl source stream scanned
  rw [stop]
  exact .stop stream scanned

theorem tokens_increase (source : Text) (stream : TokenStream) (scanned : ofSource source = .ok stream) :
    (Parser.places stream.tokens).Pairwise Position.Before := by
  obtain ⟨pieces, last, _, _, tokens, _⟩ := scan_pieces [] .start rfl source stream scanned
  rw [tokens]
  exact (Piece.located_increases [] pieces last).sublist (List.sublist_append_left _ _)

theorem failure_place {α : Type} (source : Text) (next : TokenStream → Except Error α)
    (locates : ∀ stream, Outcome.Locates (Parser.reached stream.stop stream.tokens) (next stream))
    (error : Error) (failed : ofSource source >>= next = .error error) :
    ∃ position, Place source position ∧ error.Reports position := by
  cases scanned : ofSource source with
  | error cause =>
    rw [scanned] at failed
    cases failed
    obtain ⟨fault, before, breaks, rfl⟩ := (scan_breaks .start source error).mp scanned
    rw [Position.start_after]
    exact ⟨_, .lexeme fault before breaks, .parse fault⟩
  | ok stream =>
    rw [scanned] at failed
    obtain ⟨position, member, reports⟩ := locates stream error failed
    refine ⟨position, ?_, reports⟩
    rcases List.mem_cons.mp member with rfl | token
    · exact stop_place source stream scanned
    · obtain ⟨located, inside, rfl⟩ := List.mem_map.mp token
      exact token_place source stream scanned located inside

end TokenStream

theorem Value.read_place (source : Text) (error : Error) (failed : Value.read source = .error error) :
    ∃ position, TokenStream.Place source position ∧ error.Reports position := by
  refine TokenStream.failure_place source _ (fun stream => ?_) error failed
  refine Outcome.locates_bind _ _ _ (Parser.expression_locates _ _) fun found read => ?_
  split
  · exact Outcome.locates_ok _ _
  · exact Parser.reached_behind stream.stop _ found.rest _ (Parser.expression_suffix _ _ found read)
      (Parser.unexpected_locates _ _ _)

namespace Document

open TokenStream

structure Increasing (document : Document) : Prop where
  bindings : (document.bindings.map Binding.position).Pairwise Position.Before
  diagnostics : (document.diagnostics.map Diagnostic.position).Pairwise Position.Before
  deferred : (document.deferred.map DeferredReference.position).Pairwise Position.Before

theorem within_increasing (document : Document) (positions : List Position)
    (within : document.Within positions) (increase : positions.Pairwise Position.Before) :
    document.Increasing :=
  ⟨increase.sublist within.bindings, increase.sublist within.diagnostics,
    increase.sublist within.deferred⟩

theorem read_within (options : ParseOptions) (source : Text) (document : Document)
    (done : read options source = .ok document) :
    ∃ stream, ofSource source = .ok stream ∧ document.Within (Parser.places stream.tokens) := by
  obtain ⟨stream, scanned, extended⟩ := (Outcome.bind_ok _ _ _).mp done
  have none : empty.Within [] := ⟨List.nil_sublist _, List.nil_sublist _, List.nil_sublist _⟩
  exact ⟨stream, scanned,
    extend_within options stream.stop .none empty document stream.tokens [] none extended⟩

theorem read_place (options : ParseOptions) (source : Text) (error : Error)
    (failed : read options source = .error error) :
    ∃ position, Place source position ∧ error.Reports position :=
  failure_place source _ (fun stream => extend_locates options stream.stop none empty stream.tokens)
    error failed

theorem read_positions (options : ParseOptions) (source : Text) :
    (∀ document, read options source = .ok document →
      ∃ stream, ofSource source = .ok stream ∧ (∀ located ∈ stream.tokens, Place source located.position) ∧
        document.Within (Parser.places stream.tokens) ∧ document.Increasing) ∧
    (∀ error, read options source = .error error ∨ Value.read source = .error error →
      ∃ position, Place source position ∧ error.Reports position ∧
        (error.kind = .parseError → error.position? = some position)) ∧
    ∀ position, Place source position →
      (∃ before left, source = before ++ left ∧ position = .behind before) ∧
        1 ≤ position.line ∧ 1 ≤ position.column := by
  refine ⟨fun document done => ?_, fun error failed => ?_, fun position place => ?_⟩
  · obtain ⟨stream, scanned, within⟩ := read_within options source document done
    exact ⟨stream, scanned, token_place source stream scanned, within,
      within_increasing _ _ within (tokens_increase source stream scanned)⟩
  · obtain ⟨position, place, reports⟩ :=
      failed.elim (read_place options source error) (Value.read_place source error)
    exact ⟨position, place, reports, error.reports_parse position reports⟩
  · exact ⟨place_behind source position place, place_counted source position place⟩

def marked : Text :=
  "BEGIN_PROLOG\n a: \x7bb: x c: [y@file, z(1).k]\x7d END_PROLOG # p\nd: a.c".toList

def unclosed : Text := "b: \x7bc: [1, 2".toList
def slashed : Text := "k: 'a' # c\n  /x".toList

theorem read_positions_marked :
    (∃ document, read .lenient marked = .ok document ∧
      document.bindings.map Binding.position = [⟨2, 2⟩, ⟨3, 1⟩] ∧
      document.diagnostics.map Diagnostic.position = [⟨2, 9⟩, ⟨2, 23⟩] ∧
      document.deferred.map DeferredReference.position = [⟨2, 15⟩] ∧ document.Increasing) ∧
    read .strict unclosed = .error (.parse ⟨1, 8⟩ .unterminatedArray) ∧ Place unclosed ⟨1, 8⟩ ∧
    read .strict slashed = .error (.parse ⟨2, 3⟩ (.unexpectedCharacter '/')) ∧ Place slashed ⟨2, 3⟩ := by
  have open' : read .strict unclosed = .error (.parse ⟨1, 8⟩ .unterminatedArray) := by decide +kernel
  have bad : read .strict slashed = .error (.parse ⟨2, 3⟩ (.unexpectedCharacter '/')) := by decide +kernel
  obtain ⟨_, place, _, here⟩ := (read_positions .strict unclosed).2.1 _ (.inl open')
  obtain ⟨_, other, _, there⟩ := (read_positions .strict slashed).2.1 _ (.inl bad)
  cases here rfl
  cases there rfl
  have noted : (read .lenient marked).map (fun document =>
      (document.bindings.map Binding.position, document.diagnostics.map Diagnostic.position,
        document.deferred.map DeferredReference.position)) =
      .ok ([⟨2, 2⟩, ⟨3, 1⟩], [⟨2, 9⟩, ⟨2, 23⟩], [⟨2, 15⟩]) := by decide +kernel
  obtain ⟨document, done, same⟩ := (Outcome.map_ok _ _ _).mp noted
  simp only [Prod.mk.injEq] at same
  obtain ⟨_, _, _, _, increasing⟩ := (read_positions .lenient marked).1 document done
  exact ⟨⟨document, done, same.1, same.2.1, same.2.2, increasing⟩, open', place, bad, other⟩

end Document
end ParamStore

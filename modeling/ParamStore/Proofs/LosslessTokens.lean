import Mathlib.Data.List.Induction
import ParamStore.Proofs.TokenTails

set_option autoImplicit false

namespace ParamStore
namespace Position

-- The place behind a text: its lines, and the characters behind the end of the last whole line.
def behind (text : Text) : Position :=
  ⟨1 + text.count '\n', 1 + (text.reverse.takeWhile (· != '\n')).length⟩

def Before (first second : Position) : Prop :=
  first.line < second.line ∨ (first.line = second.line ∧ first.column < second.column)

theorem before_trans (first second third : Position) (earlier : first.Before second)
    (later : second.Before third) : first.Before third := by
  unfold Before at *
  omega

theorem before_next (position : Position) (c : Char) : position.Before (position.next c) := by
  rw [next]
  split
  · exact .inl (Nat.lt_succ_self _)
  · exact .inr ⟨rfl, Nat.lt_succ_self _⟩

theorem before_after (position : Position) (text : Text) (some : text ≠ []) :
    position.Before (position.after text) := by
  induction text generalizing position with
  | nil => exact absurd rfl some
  | cons c rest ih =>
    cases rest with
    | nil => exact before_next position c
    | cons d more =>
      exact before_trans _ _ _ (before_next position c) (ih (position.next c) (List.cons_ne_nil d more))

theorem after_append (position : Position) (front back : Text) :
    position.after (front ++ back) = (position.after front).after back :=
  List.foldl_append

theorem behind_next (text : Text) (c : Char) : behind (text ++ [c]) = (behind text).next c := by
  by_cases line : c = '\n'
  · subst line
    simp [behind, next, Nat.add_assoc]
  · have other : (c != '\n') = true := by simpa using line
    simp [behind, next, line, other, Nat.add_assoc]

theorem start_after (text : Text) : start.after text = behind text := by
  induction text using List.reverseRecOn with
  | nil => rfl
  | append_singleton text c ih => rw [after_append, ih, behind_next]; rfl

theorem after_behind (front back : Text) : (behind front).after back = behind (front ++ back) := by
  rw [← start_after, ← start_after, after_append]

theorem behind_before (front back : Text) (some : back ≠ []) :
    (behind front).Before (behind (front ++ back)) := by
  rw [← after_behind]
  exact before_after _ back some

end Position

namespace Token

-- A gap at the end of a text, which may end before the line of a comment does.
inductive Trailing : Text → Prop where
  | whole (gap : Text) (layout : Layout gap) : Trailing gap
  | hash (gap line : Text) (layout : Layout gap) (inside : '\n' ∉ line) :
      Trailing (gap ++ '#' :: line)
  | slashes (gap line : Text) (layout : Layout gap) (inside : '\n' ∉ line) :
      Trailing (gap ++ '/' :: '/' :: line)

theorem layout_append (front back : Text) (first : Layout front) (second : Layout back) :
    Layout (front ++ back) := by
  induction first with
  | nil => exact second
  | blank c rest gap _ ih => exact .blank c _ gap ih
  | hash line rest inside _ ih =>
    rw [List.cons_append, List.append_assoc, List.cons_append]
    exact .hash line _ inside ih
  | slashes line rest inside _ ih =>
    rw [List.cons_append, List.cons_append, List.append_assoc, List.cons_append]
    exact .slashes line _ inside ih

def Between (left gap : Text) : Prop := if left = [] then Trailing gap else Layout gap

theorem between_layout (left gap : Text) (layout : Layout gap) : Between left gap := by
  rw [Between]
  split
  · exact .whole gap layout
  · exact layout

theorem between_append (left front gap : Text) (layout : Layout front) (between : Between left gap) :
    Between left (front ++ gap) := by
  rw [Between] at *
  split
  · rename_i none
    rw [if_pos none] at between
    cases between with
    | whole _ later => exact .whole _ (layout_append _ _ layout later)
    | hash gap line later inside =>
      rw [← List.append_assoc]
      exact .hash _ line (layout_append _ _ layout later) inside
    | slashes gap line later inside =>
      rw [← List.append_assoc]
      exact .slashes _ line (layout_append _ _ layout later) inside
  · rename_i some
    rw [if_neg some] at between
    exact layout_append _ _ layout between

def LineBetween (left gap : Text) : Prop :=
  (∃ line more, gap = line ++ '\n' :: more ∧ '\n' ∉ line ∧ Between left more) ∨ (left = [] ∧ '\n' ∉ gap)

theorem line_cons (left gap : Text) (c : Char) (inside : c ≠ '\n') (line : LineBetween left gap) :
    LineBetween left (c :: gap) := by
  rcases line with ⟨front, more, rfl, without, between⟩ | ⟨none, without⟩
  · exact .inl ⟨c :: front, more, rfl, by simp [Ne.symm inside, without], between⟩
  · exact .inr ⟨none, by simp [Ne.symm inside, without]⟩

theorem hash_between (left gap : Text) (line : LineBetween left gap) : Between left ('#' :: gap) := by
  rcases line with ⟨front, more, rfl, without, between⟩ | ⟨none, without⟩
  · rw [List.append_cons, ← List.cons_append]
    exact between_append left _ more (.hash front [] without .nil) between
  · rw [Between, if_pos none]
    exact .hash [] gap .nil without

theorem slashes_between (left gap : Text) (line : LineBetween left ('/' :: gap)) :
    Between left ('/' :: '/' :: gap) := by
  rcases line with ⟨front, more, same, without, between⟩ | ⟨none, without⟩
  · cases front with
    | nil => cases same
    | cons c front =>
      obtain ⟨rfl, rest⟩ := List.cons.inj same
      have split : '/' :: '/' :: gap = ('/' :: '/' :: (front ++ ['\n'])) ++ more := by
        rw [rest]
        simp
      rw [split]
      exact between_append left _ more
        (.slashes front [] (fun member => without (List.mem_cons_of_mem _ member)) .nil) between
  · rw [Between, if_pos none]
    exact .slashes [] gap .nil fun member => without (List.mem_cons_of_mem _ member)

theorem skip_gap_spells (inComment : Bool) (position : Position) (text : Text) :
    ∃ gap, text = gap ++ (skipGap inComment position text).2 ∧
      (skipGap inComment position text).1 = position.after gap ∧
      if inComment then LineBetween (skipGap inComment position text).2 gap
      else Between (skipGap inComment position text).2 gap := by
  induction text generalizing inComment position with
  | nil =>
    refine ⟨[], rfl, rfl, ?_⟩
    split
    · exact .inr ⟨rfl, List.not_mem_nil⟩
    · exact between_layout _ _ .nil
  | cons c rest ih =>
    rw [skipGap]
    split
    · rename_i comment
      obtain ⟨gap, join, place, fits⟩ := ih (c != '\n') (position.next c)
      refine ⟨c :: gap, congrArg (c :: ·) join, place, ?_⟩
      by_cases line : c = '\n'
      · rw [if_neg (by simp [line])] at fits
        exact .inl ⟨[], gap, by rw [line]; rfl, List.not_mem_nil, fits⟩
      · rw [if_pos (by simpa using line)] at fits
        exact line_cons _ gap c line fits
    · rename_i outside
      split
      · rename_i blank
        obtain ⟨gap, join, place, fits⟩ := ih false (position.next c)
        exact ⟨c :: gap, congrArg (c :: ·) join, place,
          between_append _ [c] gap (.blank c [] blank .nil) fits⟩
      · split
        · rename_i opens
          obtain ⟨gap, join, place, fits⟩ := ih true (position.next c)
          refine ⟨c :: gap, congrArg (c :: ·) join, place, ?_⟩
          rw [if_pos rfl] at fits
          rcases opens with rfl | ⟨rfl, second⟩
          · exact hash_between _ gap fits
          · -- The second slash is part of the line that is skipped.
            cases gap with
            | nil =>
              rcases fits with ⟨front, more, same, _⟩ | ⟨none, _⟩
              · exact absurd same.symm (by simp)
              · rw [none] at join
                rw [join] at second
                cases second
            | cons d more =>
              rw [join] at second
              cases second
              exact slashes_between _ more fits
        · exact ⟨[], rfl, rfl, between_layout _ _ .nil⟩

theorem skipped_layout (position start : Position) (source : Text) (first : Char) (rest : Text)
    (skipped : skipGap false position source = (start, first :: rest)) :
    ∃ gap, source = gap ++ first :: rest ∧ start = position.after gap ∧ Layout gap := by
  obtain ⟨gap, join, place, fits⟩ := skip_gap_spells false position source
  rw [skipped] at join place fits
  exact ⟨gap, join, place, by simpa [Between] using fits⟩

end Token

structure Piece where
  gap : Text
  token : Token
  layout : Token.Layout gap
  visible : token.text ≠ []

namespace Piece

def text (piece : Piece) : Text := piece.gap ++ piece.token.text

def located (before : Text) : List Piece → List Located
  | [] => []
  | piece :: rest =>
    ⟨piece.token, .behind (before ++ piece.gap)⟩ :: located (before ++ piece.text) rest

theorem located_length (before : Text) (pieces : List Piece) :
    (located before pieces).length = pieces.length := by
  induction pieces generalizing before with
  | nil => rfl
  | cons piece rest ih => exact congrArg Nat.succ (ih _)

theorem located_behind (before : Text) (pieces : List Piece) :
    ∀ token ∈ located before pieces, ∃ more, token.position = .behind (before ++ more) := by
  induction pieces generalizing before with
  | nil => exact fun token member => absurd member List.not_mem_nil
  | cons piece rest ih =>
    intro token member
    rcases List.mem_cons.mp member with rfl | later
    · exact ⟨piece.gap, rfl⟩
    · obtain ⟨more, place⟩ := ih _ token later
      exact ⟨piece.text ++ more, by rw [place, List.append_assoc]⟩

-- Positions grow from token to token, because no token is empty.
theorem located_increases (before : Text) (pieces : List Piece) (last : Text) :
    ((located before pieces).map Located.position ++
      [Position.behind (before ++ (pieces.flatMap text ++ last))]).Pairwise Position.Before := by
  induction pieces generalizing before with
  | nil => exact List.pairwise_singleton _ _
  | cons piece rest ih =>
    have beyond (more : Text) : (Position.behind (before ++ piece.gap)).Before
        (.behind (before ++ piece.text ++ more)) := by
      rw [text, ← List.append_assoc, List.append_assoc]
      exact Position.behind_before _ _ fun none => piece.visible (List.append_eq_nil_iff.mp none).1
    have later := ih (before ++ piece.text)
    rw [List.append_assoc] at later
    rw [located, List.map_cons, List.cons_append, List.flatMap_cons, List.append_assoc,
      List.pairwise_cons]
    refine ⟨fun position member => ?_, later⟩
    rcases List.mem_append.mp member with token | stop
    · obtain ⟨found, inside, rfl⟩ := List.mem_map.mp token
      obtain ⟨more, place⟩ := located_behind _ rest found inside
      rw [place]
      exact beyond more
    · rw [List.mem_singleton.mp stop, ← List.append_assoc before]
      exact beyond _

end Piece

namespace TokenStream

theorem scan_pieces (before : Text) (position : Position) (here : position = .behind before)
    (source : Text) (stream : TokenStream) (scanned : scan position source = .ok stream) :
    ∃ pieces last, source = List.flatMap Piece.text pieces ++ last ∧ Token.Trailing last ∧
      stream.tokens = Piece.located before pieces ∧ stream.stop = .behind (before ++ source) := by
  fun_induction scan position source generalizing before stream with
  | case1 position source stop skipped =>
    cases scanned
    obtain ⟨gap, join, place, fits⟩ := Token.skip_gap_spells false position source
    rw [skipped] at join place fits
    rw [List.append_nil] at join
    subst join here
    exact ⟨[], source, rfl, by simpa [Token.Between] using fits, rfl,
      place.trans (Position.after_behind before source)⟩
  | case2 => cases scanned
  | case3 position source start first rest skipped token left found ih =>
    obtain ⟨later, scannedLater, rfl⟩ := (Outcome.map_ok _ _ _).mp scanned
    obtain ⟨gap, join, place, layout⟩ := Token.skipped_layout position start source first rest skipped
    obtain ⟨body, spelled, behind, _⟩ := Token.read_cut first rest left token found
    have visible : token.text ≠ [] := by rw [spelled]; exact List.cons_ne_nil _ _
    have whole : source = gap ++ token.text ++ left := by
      rw [join, spelled, behind, List.append_assoc, List.cons_append]
    have starts : start = .behind (before ++ gap) := by
      rw [place, here, Position.after_behind]
    obtain ⟨pieces, last, split, trailing, tokens, stop⟩ :=
      ih (before ++ (gap ++ token.text)) (by rw [starts, Position.after_behind, List.append_assoc])
        later scannedLater
    refine ⟨⟨gap, token, layout, visible⟩ :: pieces, last, ?_, trailing, ?_, ?_⟩
    · rw [whole, split, List.flatMap_cons, ← List.append_assoc]
      rfl
    · rw [Piece.located, tokens, starts]
      rfl
    · rw [whole, ← List.append_assoc]
      exact stop

theorem lossless (source : Text) (stream : TokenStream) (scanned : ofSource source = .ok stream) :
    ∃ pieces last, source = List.flatMap Piece.text pieces ++ last ∧ Token.Trailing last ∧
      stream.tokens = Piece.located [] pieces ∧ stream.stop = .behind source ∧
      (stream.tokens.map Located.position ++ [stream.stop]).Pairwise Position.Before := by
  obtain ⟨pieces, last, split, trailing, tokens, stop⟩ := scan_pieces [] .start rfl source stream scanned
  refine ⟨pieces, last, split, trailing, tokens, stop, ?_⟩
  rw [tokens, stop, split]
  exact Piece.located_increases [] pieces last

def mixed : Text := "k:\t'a\nb' // c\n+1.5e3@DB # d".toList

theorem lossless_mixed :
    ∃ pieces last,
      ofSource mixed = .ok ⟨[⟨.word ['k'], ⟨1, 1⟩⟩, ⟨.delimiter .colon, ⟨1, 2⟩⟩,
        ⟨.quoted "'a\nb'".toList, ⟨1, 4⟩⟩, ⟨.number "+1.5e3".toList, ⟨3, 1⟩⟩,
        ⟨.deferred .database, ⟨3, 7⟩⟩], ⟨3, 14⟩⟩ ∧
      mixed = List.flatMap Piece.text pieces ++ last ∧ Token.Trailing last ∧ pieces.length = 5 ∧
      Position.behind mixed = ⟨3, 14⟩ := by
  have scanned : ofSource mixed = .ok ⟨[⟨.word ['k'], ⟨1, 1⟩⟩, ⟨.delimiter .colon, ⟨1, 2⟩⟩,
      ⟨.quoted "'a\nb'".toList, ⟨1, 4⟩⟩, ⟨.number "+1.5e3".toList, ⟨3, 1⟩⟩,
      ⟨.deferred .database, ⟨3, 7⟩⟩], ⟨3, 14⟩⟩ := by decide +kernel
  obtain ⟨pieces, last, split, trailing, tokens, stop, _⟩ := lossless mixed _ scanned
  have count := congrArg List.length tokens
  rw [Piece.located_length] at count
  exact ⟨pieces, last, scanned, split, trailing, count.symm, stop.symm⟩

end TokenStream
end ParamStore

import ParamStore.Proofs.TokenTails

set_option autoImplicit false

namespace ParamStore
namespace Token

-- A line break ends a token as any gap does.
theorem read_break (first : Char) (rest left more : Text) (token : Token)
    (done : read first rest = .ok (token, left)) :
    read first (rest ++ '\n' :: more) = .ok (token, left ++ '\n' :: more) := by
  obtain ⟨body, _, rfl, cut⟩ := read_cut first rest left token done
  rw [List.append_assoc]
  exact cut _ (by simpa using loosens_behind left [] ('\n' :: more) (.gap [] '\n' more rfl))

-- Where the gap goes up to the end, a comment in it ends at the break.
theorem skip_gap_break (inComment : Bool) (position : Position) (text more : Text) :
    skipGap inComment position (text ++ '\n' :: more) =
      match skipGap inComment position text with
      | (stop, []) => skipGap false (stop.next '\n') more
      | (start, first :: rest) => (start, first :: (rest ++ '\n' :: more)) := by
  induction text generalizing inComment position with
  | nil => cases inComment <;> rfl
  | cons c rest ih =>
    rw [List.cons_append, skipGap, skipGap]
    have ahead : (rest ++ '\n' :: more).head? = some '/' ↔ rest.head? = some '/' := by
      cases rest <;> simp
    cases inComment with
    | true => exact ih _ _
    | false =>
      cases gap : isGap c with
      | true => exact ih _ _
      | false =>
        by_cases comment : c = '#' ∨ (c = '/' ∧ rest.head? = some '/')
        · simp only [ahead, comment, if_true, Bool.false_eq_true, if_false]
          exact ih _ _
        · simp only [ahead, comment, Bool.false_eq_true, if_false]

end Token

namespace TokenStream

theorem scan_break (position : Position) (source more : Text) (stream : TokenStream)
    (scanned : scan position source = .ok stream) :
    scan position (source ++ '\n' :: more) =
      (scan (stream.stop.next '\n') more).map fun behind =>
        ⟨stream.tokens ++ behind.tokens, behind.stop⟩ := by
  fun_induction scan position source generalizing stream with
  | case1 position source stop gap =>
    cases scanned
    rw [scan_step, Token.skip_gap_break, gap]
    simp only
    rw [← scan_step]
    cases scan (stop.next '\n') more <;> rfl
  | case2 => cases scanned
  | case3 position source start first rest gap token left found ih =>
    obtain ⟨behind, read, rfl⟩ := (Outcome.map_ok _ _ _).mp scanned
    rw [scan_step, Token.skip_gap_break, gap]
    simp only [Token.read_break first rest left more token found, ih behind read]
    cases scan (behind.stop.next '\n') more <;> rfl

theorem of_source_break (source more : Text) (stream : TokenStream) (tokens : List Token)
    (scanned : ofSource source = .ok stream) (reads : Reads more tokens) :
    ∃ behind : TokenStream, ofSource (source ++ '\n' :: more) =
        .ok ⟨stream.tokens ++ behind.tokens, behind.stop⟩ ∧
      behind.tokens.map Located.token = tokens := by
  obtain ⟨behind, read, same⟩ := reads (stream.stop.next '\n')
  refine ⟨behind, ?_, same⟩
  rw [ofSource, scan_break .start source more stream scanned, read]
  rfl

end TokenStream
end ParamStore

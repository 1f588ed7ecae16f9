import ParamStore.Proofs.TokenRuns

set_option autoImplicit false

namespace ParamStore
namespace Text

inductive Paired : Text → Prop where
  | nil : Paired []
  | plain (c : Char) (rest : Text) (noBackslash : c ≠ '\\') (others : Paired rest) : Paired (c :: rest)
  | pair (c : Char) (rest : Text) (others : Paired rest) : Paired ('\\' :: c :: rest)

def escapes : List (Char × Char) := [('"', '"'), ('\'', '\''), ('\\', '\\'), ('n', '\n'), ('t', '\t')]

inductive Escaped : Text → Text → Prop where
  | nil : Escaped [] []
  | plain (c : Char) (rest content : Text) (noBackslash : c ≠ '\\') (others : Escaped rest content) :
      Escaped (c :: rest) (c :: content)
  | escape (c plain : Char) (rest content : Text) (known : (c, plain) ∈ escapes)
      (others : Escaped rest content) : Escaped ('\\' :: c :: rest) (plain :: content)

theorem unescape_char_iff (c plain : Char) :
    unescapeChar? c = some plain ↔ (c, plain) ∈ escapes := by
  unfold unescapeChar? escapes
  split
  · rename_i same
    rcases same with rfl | rfl | rfl <;> simp [eq_comm]
  · rename_i noSame
    simp only [not_or] at noSame
    split
    · rename_i same
      subst same
      simp [eq_comm]
    · split
      · rename_i same
        subst same
        simp [eq_comm]
      · simp_all

theorem escaped_unescape (inside content : Text) (escaped : Escaped inside content) :
    unescape inside = .ok content := by
  induction escaped with
  | nil => rfl
  | plain c rest content noBackslash others ih =>
    rw [unescape, ih]
    · rfl
    · rintro rfl
      exact absurd rfl noBackslash
    · rintro _ _ rfl
      exact absurd rfl noBackslash
  | escape c plain rest content known others ih =>
    rw [unescape, (unescape_char_iff c plain).mpr known]
    simp [ih, Except.map]

theorem unescape_escaped (inside content : Text) (paired : Paired inside)
    (unescaped : unescape inside = .ok content) : Escaped inside content := by
  induction paired generalizing content with
  | nil =>
    cases unescaped
    exact .nil
  | plain c rest noBackslash others ih =>
    rw [unescape] at unescaped
    · obtain ⟨tail, read, rfl⟩ := (Outcome.map_ok _ _ _).mp unescaped
      exact .plain c rest tail noBackslash (ih tail read)
    · rintro rfl
      exact absurd rfl noBackslash
    · rintro _ _ rfl
      exact absurd rfl noBackslash
  | pair c rest others ih =>
    rw [unescape] at unescaped
    cases known : unescapeChar? c with
    | none => simp [known] at unescaped
    | some plain =>
      simp only [known] at unescaped
      obtain ⟨tail, read, rfl⟩ := (Outcome.map_ok _ _ _).mp unescaped
      exact .escape c plain rest tail ((unescape_char_iff c plain).mp known) (ih tail read)

end Text

namespace Token

inductive QuotedText : Text → Prop where
  | single (inside : Text) : QuotedText ('\'' :: (inside ++ ['\'']))
  | double (inside : Text) (paired : inside.Paired) : QuotedText ('"' :: (inside ++ ['"']))

theorem close_quote_shape (quote : Char) (text inside left : Text)
    (closed : closeQuote? quote text = some (inside, left)) :
    ∃ between, inside = between ++ [quote] ∧ (quote = '"' → between.Paired) := by
  fun_induction closeQuote? quote text generalizing inside left with
  | case1 => cases closed
  | case2 =>
    cases closed
    exact ⟨[], rfl, fun _ => .nil⟩
  | case3 => cases closed
  | case4 c next rest escaped ih =>
    obtain ⟨⟨behind, remaining⟩, found, same⟩ := Option.map_eq_some_iff.mp closed
    cases same
    obtain ⟨between, rfl, paired⟩ := ih _ _ found
    refine ⟨c :: next :: between, rfl, fun double => ?_⟩
    rw [escaped.1]
    exact .pair next between (paired double)
  | case5 next rest plain =>
    cases closed
    exact ⟨[], rfl, fun _ => .nil⟩
  | case6 c next rest plain different ih =>
    obtain ⟨⟨behind, remaining⟩, found, same⟩ := Option.map_eq_some_iff.mp closed
    cases same
    obtain ⟨between, rfl, paired⟩ := ih _ _ found
    refine ⟨c :: between, rfl, fun double => ?_⟩
    exact .plain c between (fun backslash => plain ⟨backslash, double⟩) (paired double)

theorem read_quoted (first : Char) (rest left literal : Text)
    (found : read first rest = .ok (.quoted literal, left)) : QuotedText literal := by
  rcases read_cases first rest left _ found with
    ⟨_, same⟩ | ⟨_, same⟩ | ⟨_, same⟩ | ⟨inside, quote, closed, same⟩ | ⟨_, made⟩
  · cases same
  · cases same
  · cases same
  · cases same
    obtain ⟨between, rfl, paired⟩ := close_quote_shape first rest inside left closed
    rcases quote with rfl | rfl
    · exact .double between (paired rfl)
    · exact .single between
  · rw [ofWord] at made
    split at made <;> cases made

end Token
end ParamStore

import ParamStore.Proofs.PhraseReading
import ParamStore.Proofs.TokenTails
import ParamStore.Proofs.WrittenReferences

set_option autoImplicit false

namespace ParamStore
namespace Token

def Lexed : Token → Prop
  | .word name => name.isKey = true ∧ name ≠ Text.infinity
  | .number literal => literal ≠ []
  | .quoted literal => QuotedText literal
  | .delimiter _ | .deferred _ => True

theorem of_word_finite (text other : Text) (made : ofWord text = .word other) :
    other ≠ Text.infinity := by
  rw [ofWord] at made
  split at made
  · cases made
  · cases made
    assumption

theorem read_lexed (first : Char) (rest : Text) (token : Token) (left : Text)
    (found : read first rest = .ok (token, left)) : token.Lexed := by
  cases token with
  | delimiter mark => trivial
  | deferred place => trivial
  | number literal =>
    obtain ⟨body, text, _⟩ := read_cut first rest left _ found
    exact fun none => List.cons_ne_nil first body (text.symm.trans none)
  | quoted literal => exact read_quoted first rest left literal found
  | word name =>
    refine ⟨read_word first rest left name found, ?_⟩
    rcases read_cases first rest left _ found with
      ⟨_, same⟩ | ⟨_, same⟩ | ⟨_, same⟩ | ⟨_, _, _, same⟩ | ⟨_, made⟩
    · cases same
    · cases same
    · cases same
    · cases same
    · exact of_word_finite _ name made.symm

end Token

namespace Parser

open Reference

def Lexed (tokens : List Located) : Prop := ∀ located ∈ tokens, located.token.Lexed

theorem lexed_suffix (tokens rest : List Located) (lexed : Lexed tokens) (suffix : rest <:+ tokens) :
    Lexed rest := fun located member => lexed located (suffix.subset member)

theorem lexed_words (tokens : List Located) (lexed : Lexed tokens) : Words tokens := by
  intro located member word same
  have here := lexed located member
  rw [same] at here
  exact here.1

theorem name_lexed (word : Text) (lexed : (Token.word word).Lexed) (free : isReserved word = false) :
    ∃ name : Name, name.text = word := ⟨⟨word, lexed.1, free⟩, rfl⟩

theorem ordinal_lexed (digits : Text) (lexed : (Token.number digits).Lexed)
    (all : digits.allDigits = true) (bound : digits.toNat < Path.indexLimit) :
    ∃ place : Reference.Ordinal, place.digits = digits := ⟨⟨digits, lexed, all, bound⟩, rfl⟩

theorem version_tokens (tokens left : List Located) (number : Option Nat) (lexed : Lexed tokens)
    (read : version tokens = .ok (number, left)) :
    ∃ written : WrittenVersion, written.place? = number ∧
      tokens.map Located.token = written.tokens ++ left.map Located.token := by
  unfold version at read
  split at read
  · rename_i opened inner position closed rest
    split at read
    · rename_i word
      split at read
      · rename_i last
        cases read
        exact ⟨.last, rfl, by rw [last]; rfl⟩
      · cases read
        exact ⟨.absent, rfl, rfl⟩
    · rename_i digits
      split at read
      · rename_i all
        split at read
        · rename_i bound
          cases read
          obtain ⟨place, rfl⟩ := ordinal_lexed digits (lexed ⟨.number digits, position⟩ (by simp)) all bound
          exact ⟨.number place, rfl, rfl⟩
        · cases read
      · cases read
        exact ⟨.absent, rfl, rfl⟩
    · cases read
      exact ⟨.absent, rfl, rfl⟩
  · cases read
    exact ⟨.absent, rfl, rfl⟩

theorem index_number (first : Located) (place : Nat) (read : index first = .ok place) :
    ∃ digits, first.token = .number digits ∧ digits.allDigits = true ∧
      digits.toNat < Path.indexLimit ∧ digits.toNat = place := by
  unfold index at read
  split at read
  · rename_i digits position
    split at read
    · rename_i all
      split at read
      · rename_i bound
        cases read
        exact ⟨digits, rfl, all, bound, rfl⟩
      · cases read
    · cases read
  · cases read

theorem steps_tokens (stop : Position) (tokens left : List Located) (inwards : List Segment)
    (lexed : Lexed tokens)
    (read : steps stop tokens = .ok (inwards, left)) :
    ∃ written : List WrittenStep, written.map WrittenStep.segment = inwards ∧
      tokens.map Located.token = written.flatMap WrittenStep.tokens ++ left.map Located.token := by
  fun_induction steps stop tokens generalizing inwards left with
  | case1 => exact absurd read (unexpected_ne _ _ _ _)
  | case2 => cases read
  | case3 => cases read
  | case4 position first rest key named more remaining found ih =>
    cases read
    obtain ⟨word, free⟩ := name_word first key named
    have keyed : (Token.word key).Lexed := word ▸ lexed first (by simp)
    obtain ⟨name, rfl⟩ := name_lexed key keyed free
    obtain ⟨written, same, split⟩ := ih _ _ (lexed_suffix _ rest lexed ⟨[_, _], rfl⟩) found
    exact ⟨.key name :: written, by rw [← same]; rfl, by simp [WrittenStep.tokens, word, split]⟩
  | case5 => exact absurd read (unexpected_ne _ _ _ _)
  | case6 => cases read
  | case7 => cases read
  | case8 position first place numbered closed behind more remaining found ih =>
    cases read
    obtain ⟨digits, token, all, bound, rfl⟩ := index_number first place numbered
    have literal : (Token.number digits).Lexed := token ▸ lexed first (by simp)
    obtain ⟨ordinal, rfl⟩ := ordinal_lexed digits literal all bound
    obtain ⟨written, same, split⟩ := ih _ _ (lexed_suffix _ behind lexed ⟨[_, _, _], rfl⟩) found
    exact ⟨.index ordinal :: written, by rw [← same]; rfl,
      by simp [WrittenStep.tokens, token, split]⟩
  | case9 => exact absurd read (unexpected_ne _ _ _ _)
  | case10 =>
    cases read
    exact ⟨[], rfl, rfl⟩

theorem reference_tokens (stop : Position) (name : Name) (tokens left : List Located)
    (found : Reference) (place : External) (lexed : Lexed tokens)
    (read : reference stop name.text tokens = .ok (found, left)) (marked : found.place = some place) :
    ∃ written : Written, written.name = name ∧
      tokens.map Located.token = written.behindName ++ .deferred place :: left.map Located.token := by
  rw [reference] at read
  split at read
  · cases read
  · rename_i number behind versioned
    split at read
    · cases read
    · rename_i inwards remaining stepped
      cases read
      obtain ⟨version, _, first⟩ := version_tokens tokens behind number lexed versioned
      have lexedBehind := lexed_suffix tokens behind lexed (version_suffix tokens behind number versioned)
      obtain ⟨steps, _, second⟩ := steps_tokens stop behind remaining inwards lexedBehind stepped
      refine ⟨⟨name, version, steps⟩, rfl, ?_⟩
      simp only [external] at marked ⊢
      split at marked
      · cases marked
        simp [Written.behindName, first, second]
      · cases marked

theorem reference_marked (stop : Position) (written : Written) (place : External) (more : List Token)
    (tokens : List Located)
    (shown : tokens.map Located.token = written.behindName ++ .deferred place :: more) :
    ∃ left, left.map Located.token = more ∧ reference stop written.name.text tokens =
      .ok (⟨written.name.text, written.version.place?, written.segments, some place⟩, left) := by
  obtain ⟨behind, same, read⟩ :=
    reference_behind_name stop written (.deferred place :: more) nofun tokens shown
  obtain ⟨position, left, rfl, rest⟩ := shown_cons _ _ _ same
  exact ⟨left, rest, read⟩

theorem not_reserved (word : Text) (free : word ∉ [trueWord, falseWord, nilWord, beginProlog, endProlog])
    (finite : word ≠ Text.infinity) : isReserved word = false := by
  simp only [List.mem_cons, List.not_mem_nil, or_false, not_or] at free
  simp [isReserved, reservedWords, free, finite]

theorem reserved_free (word : Text) (free : isReserved word = false) :
    word ∉ [trueWord, falseWord, nilWord, beginProlog, endProlog] := by
  intro member
  simp only [isReserved, reservedWords, List.contains_eq_mem, decide_eq_false_iff_not, List.mem_cons,
    List.not_mem_nil, or_false, not_or] at free
  simp [free] at member

end Parser

theorem TokenStream.scan_lexed (position : Position) (source : Text) (stream : TokenStream)
    (scanned : scan position source = .ok stream) : Parser.Lexed stream.tokens :=
  scan_all Token.Lexed Token.read_lexed position source stream scanned

end ParamStore

import ParamStore.Error

set_option autoImplicit false

namespace ParamStore
namespace Token

def isGap (c : Char) : Bool := c == ' ' || c == '\t' || c == '\r' || c == '\n'

def skipGap (inComment : Bool) (position : Position) : Text → Position × Text
  | [] => (position, [])
  | c :: rest =>
    if inComment then skipGap (c != '\n') (position.next c) rest
    else if isGap c then skipGap false (position.next c) rest
    else if c = '#' ∨ (c = '/' ∧ rest.head? = some '/') then skipGap true (position.next c) rest
    else (position, c :: rest)

theorem skip_gap_length (inComment : Bool) (position : Position) (text : Text) :
    (skipGap inComment position text).2.length ≤ text.length := by
  induction text generalizing inComment position with
  | nil => simp [skipGap]
  | cons c rest ih =>
    unfold skipGap
    split
    · exact Nat.le_succ_of_le (ih _ _)
    · split
      · exact Nat.le_succ_of_le (ih _ _)
      · split
        · exact Nat.le_succ_of_le (ih _ _)
        · exact Nat.le_refl _

-- Between double quotes a backslash takes the next character along.
def closeQuote? (quote : Char) : Text → Option (Text × Text)
  | [] => none
  | [c] => if c = quote then some ([c], []) else none
  | c :: next :: rest =>
    if c = '\\' ∧ quote = '"' then
      (closeQuote? quote rest).map fun (inside, left) => (c :: next :: inside, left)
    else if c = quote then some ([c], next :: rest)
    else (closeQuote? quote (next :: rest)).map fun (inside, left) => (c :: inside, left)

def splitDigits (text : Text) : Text × Text :=
  (text.takeWhile Char.isDigit, text.dropWhile Char.isDigit)

def splitFraction : Text → Text × Text
  | '.' :: c :: rest =>
    if c.isDigit then ('.' :: (splitDigits (c :: rest)).1, (splitDigits (c :: rest)).2)
    else ([], '.' :: c :: rest)
  | text => ([], text)

def splitExponent : Text → Text × Text
  | [] => ([], [])
  | mark :: rest =>
    if mark = 'e' ∨ mark = 'E' then
      match rest with
      | [] => ([], [mark])
      | c :: tail =>
        if c.isDigit then (mark :: (splitDigits (c :: tail)).1, (splitDigits (c :: tail)).2)
        else if (c = '+' ∨ c = '-') ∧ tail.head?.any Char.isDigit then
          (mark :: c :: (splitDigits tail).1, (splitDigits tail).2)
        else ([], mark :: c :: tail)
    else ([], mark :: rest)

def splitNumber (text : Text) : Text × Text :=
  let whole := splitDigits text
  let fraction := splitFraction whole.2
  let power := splitExponent fraction.2
  (whole.1 ++ fraction.1 ++ power.1, power.2)

def splitWord (text : Text) : Text × Text :=
  (text.takeWhile Text.isNameChar, text.dropWhile Text.isNameChar)

def readSigned (sign : Char) (rest : Text) : Except Fault (Token × Text) :=
  if rest.head?.any Char.isDigit then
    .ok (.number (sign :: (splitNumber rest).1), (splitNumber rest).2)
  else if (splitWord rest).1 = Text.infinity then
    .ok (.number (sign :: (splitWord rest).1), (splitWord rest).2)
  else .error (.danglingSign sign)

def readMarker (rest : Text) : Except Fault (Token × Text) :=
  if (splitWord rest).1 = External.file.word then .ok (.deferred .file, (splitWord rest).2)
  else if (splitWord rest).1 = External.database.word then
    .ok (.deferred .database, (splitWord rest).2)
  else .error (.unknownMarker (splitWord rest).1)

def ofWord (word : Text) : Token := if word = Text.infinity then .number word else .word word

def read (first : Char) (rest : Text) : Except Fault (Token × Text) :=
  match Delimiter.ofChar? first with
  | some mark => .ok (.delimiter mark, rest)
  | none =>
    if first = '"' ∨ first = '\'' then
      match closeQuote? first rest with
      | none => .error .unterminatedString
      | some (inside, left) => .ok (.quoted (first :: inside), left)
    else if first = '@' then readMarker rest
    else if first = '+' ∨ first = '-' then readSigned first rest
    else if first.isDigit then
      .ok (.number (splitNumber (first :: rest)).1, (splitNumber (first :: rest)).2)
    else if Text.isNameStart first then
      .ok (ofWord (first :: (splitWord rest).1), (splitWord rest).2)
    else .error (.unexpectedCharacter first)

theorem close_quote_length (quote : Char) (text inside left : Text)
    (closed : closeQuote? quote text = some (inside, left)) : left.length < text.length := by
  fun_induction closeQuote? quote text generalizing inside left with
  | case1 => simp at closed
  | case2 =>
    simp only [Option.some.injEq, Prod.mk.injEq] at closed
    rw [← closed.2]
    exact Nat.zero_lt_one
  | case3 => simp at closed
  | case4 c next rest escaped ih =>
    obtain ⟨⟨behind, remaining⟩, found, same⟩ := Option.map_eq_some_iff.mp closed
    simp only [Prod.mk.injEq] at same
    have bound := ih _ _ found
    rw [← same.2]
    simp only [List.length_cons]
    omega
  | case5 c next rest =>
    simp only [Option.some.injEq, Prod.mk.injEq] at closed
    rw [← closed.2]
    simp
  | case6 c next rest _ _ ih =>
    obtain ⟨⟨behind, remaining⟩, found, same⟩ := Option.map_eq_some_iff.mp closed
    simp only [Prod.mk.injEq] at same
    have bound := ih _ _ found
    rw [← same.2]
    simp only [List.length_cons] at bound ⊢
    omega

theorem split_digits_length (text : Text) : (splitDigits text).2.length ≤ text.length :=
  (List.dropWhile_sublist _).length_le

theorem split_fraction_length (text : Text) : (splitFraction text).2.length ≤ text.length := by
  unfold splitFraction
  split
  · rename_i c rest
    split
    · exact Nat.le_succ_of_le (split_digits_length (c :: rest))
    · exact Nat.le_refl _
  · exact Nat.le_refl _

theorem split_exponent_length (text : Text) : (splitExponent text).2.length ≤ text.length := by
  unfold splitExponent
  split
  · exact Nat.le_refl _
  · rename_i mark rest
    split
    · split
      · exact Nat.le_refl _
      · rename_i c tail
        split
        · exact Nat.le_succ_of_le (split_digits_length (c :: tail))
        · split
          · exact Nat.le_succ_of_le (Nat.le_succ_of_le (split_digits_length tail))
          · exact Nat.le_refl _
    · exact Nat.le_refl _

theorem split_number_length (text : Text) : (splitNumber text).2.length ≤ text.length :=
  Nat.le_trans (split_exponent_length _)
    (Nat.le_trans (split_fraction_length _) (split_digits_length _))

theorem split_number_shorter (first : Char) (rest : Text) (digit : first.isDigit = true) :
    (splitNumber (first :: rest)).2.length ≤ rest.length := by
  refine Nat.le_trans (split_exponent_length _) (Nat.le_trans (split_fraction_length _) ?_)
  change (List.dropWhile Char.isDigit (first :: rest)).length ≤ rest.length
  rw [List.dropWhile_cons_of_pos digit]
  exact (List.dropWhile_sublist _).length_le

theorem split_word_length (text : Text) : (splitWord text).2.length ≤ text.length :=
  (List.dropWhile_sublist _).length_le

theorem read_length (first : Char) (rest : Text) (token : Token) (left : Text)
    (done : read first rest = .ok (token, left)) : left.length ≤ rest.length := by
  unfold read at done
  split at done
  · simp only [Except.ok.injEq, Prod.mk.injEq] at done
    exact Nat.le_of_eq (congrArg List.length done.2.symm)
  · split at done
    · split at done
      · cases done
      · rename_i inside behind closed
        simp only [Except.ok.injEq, Prod.mk.injEq] at done
        rw [← done.2]
        exact Nat.le_of_lt (close_quote_length _ _ _ _ closed)
    · have word := split_word_length rest
      split at done
      · unfold readMarker at done
        split at done
        · simp only [Except.ok.injEq, Prod.mk.injEq] at done
          exact done.2 ▸ word
        · split at done
          · simp only [Except.ok.injEq, Prod.mk.injEq] at done
            exact done.2 ▸ word
          · cases done
      · split at done
        · unfold readSigned at done
          split at done
          · simp only [Except.ok.injEq, Prod.mk.injEq] at done
            exact done.2 ▸ split_number_length rest
          · split at done
            · simp only [Except.ok.injEq, Prod.mk.injEq] at done
              exact done.2 ▸ word
            · cases done
        · split at done
          · rename_i digit
            simp only [Except.ok.injEq, Prod.mk.injEq] at done
            exact done.2 ▸ split_number_shorter first rest digit
          · split at done
            · simp only [Except.ok.injEq, Prod.mk.injEq] at done
              exact done.2 ▸ word
            · cases done

end Token

namespace TokenStream

-- A token takes up exactly its own text, so the position behind it is known from it.
def scan (position : Position) (source : Text) : Except Error TokenStream :=
  match _gap : Token.skipGap false position source with
  | (stop, []) => .ok ⟨[], stop⟩
  | (start, first :: rest) =>
    match _found : Token.read first rest with
    | .error fault => .error (.parse start fault)
    | .ok (token, left) =>
      (scan (start.after token.text) left).map fun behind =>
        ⟨⟨token, start⟩ :: behind.tokens, behind.stop⟩
termination_by source.length
decreasing_by
  have skipped := Token.skip_gap_length false position source
  have bound := Token.read_length first rest token left _found
  rw [_gap] at skipped
  simp only [List.length_cons] at skipped
  omega

def ofSource (source : Text) : Except Error TokenStream := scan .start source

end TokenStream
end ParamStore

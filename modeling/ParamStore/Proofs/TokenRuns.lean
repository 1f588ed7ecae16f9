import ParamStore.Proofs.NumberTexts
import ParamStore.Proofs.Outcome
import ParamStore.Proofs.StringTexts

set_option autoImplicit false

namespace ParamStore
namespace TokenStream

theorem scan_step (position : Position) (source : Text) :
    scan position source =
      match Token.skipGap false position source with
      | (stop, []) => .ok ⟨[], stop⟩
      | (start, first :: rest) =>
        match Token.read first rest with
        | .error fault => .error (.parse start fault)
        | .ok (token, left) =>
          (scan (start.after token.text) left).map fun behind =>
            ⟨⟨token, start⟩ :: behind.tokens, behind.stop⟩ := by
  rw [scan]
  split
  · rename_i gap
    rw [gap]
  · rename_i gap
    rw [gap]
    simp only
    split
    · rename_i found
      rw [found]
    · rename_i found
      rw [found]

theorem scan_all (kept : Token → Prop)
    (each : ∀ first rest token left, Token.read first rest = .ok (token, left) → kept token)
    (position : Position) (source : Text) (stream : TokenStream)
    (scanned : scan position source = .ok stream) :
    ∀ located ∈ stream.tokens, kept located.token := by
  fun_induction scan position source generalizing stream with
  | case1 =>
    cases scanned
    intro located member
    cases member
  | case2 => cases scanned
  | case3 position source start first rest gap token left found ih =>
    obtain ⟨behind, read, rfl⟩ := (Outcome.map_ok _ _ _).mp scanned
    intro located member
    rcases List.mem_cons.mp member with rfl | later
    · exact each first rest token left found
    · exact ih behind read located later

def Reads (text : Text) (tokens : List Token) : Prop :=
  ∀ position, ∃ stream, scan position text = .ok stream ∧ stream.tokens.map Located.token = tokens

theorem reads_nil : Reads [] [] := by
  intro position
  exact ⟨⟨[], position⟩, by rw [scan_step]; rfl, rfl⟩

theorem reads_blank (rest : Text) (tokens : List Token) (reads : Reads rest tokens) :
    Reads (' ' :: rest) tokens := by
  intro position
  obtain ⟨stream, scanned, same⟩ := reads (position.next ' ')
  refine ⟨stream, ?_, same⟩
  rw [← scanned, scan_step, scan_step (position.next ' ')]
  rfl

def Visible (c : Char) : Prop := Token.isGap c = false ∧ c ≠ '#' ∧ c ≠ '/'

theorem reads_token (first : Char) (rest left : Text) (token : Token) (tokens : List Token)
    (visible : Visible first) (found : Token.read first rest = .ok (token, left))
    (behind : Reads left tokens) : Reads (first :: rest) (token :: tokens) := by
  intro position
  obtain ⟨stream, scanned, same⟩ := behind (position.after token.text)
  have gap : Token.skipGap false position (first :: rest) = (position, first :: rest) := by
    simp [Token.skipGap, visible.1, visible.2.1, visible.2.2]
  refine ⟨⟨⟨token, position⟩ :: stream.tokens, stream.stop⟩, ?_, ?_⟩
  · rw [scan_step, gap]
    simp only [found, scanned]
    rfl
  · rw [List.map_cons, same]

end TokenStream

namespace Token

-- Behind a token of letters or digits nothing follows that it could go on with.
def Stops (rest : Text) : Prop :=
  ∀ c, rest.head? = some c → Text.isNameChar c = false ∧ c ≠ '.'

theorem digit_name (c : Char) (digit : c.isDigit = true) : Text.isNameChar c = true := by
  simp [Text.isNameChar, Char.isAlphanum, digit]

theorem name_digit (c : Char) (outside : Text.isNameChar c = false) : c.isDigit = false := by
  cases digit : c.isDigit with
  | false => rfl
  | true =>
    rw [digit_name c digit] at outside
    cases outside

theorem split_digits_run (digits rest : Text) (all : digits.allDigits = true)
    (stops : ∀ c, rest.head? = some c → c.isDigit = false) :
    splitDigits (digits ++ rest) = (digits, rest) := by
  obtain ⟨front, back⟩ := run_ends digits rest ((Text.all_digits_iff _).mp all) stops
  rw [splitDigits]
  rw [front, back]

theorem split_fraction_part (point fraction rest : Text) (part : Decimal.PointPart point fraction)
    (stops : ∀ c, rest.head? = some c → c.isDigit = false ∧ c ≠ '.') :
    splitFraction (point ++ rest) = (point, rest) := by
  cases part with
  | none =>
    cases rest with
    | nil => rfl
    | cons c tail =>
      have noPoint := (stops c rfl).2
      unfold splitFraction
      split
      · rename_i same
        cases same
        exact absurd rfl noPoint
      · rfl
  | some _ nonempty all =>
    cases fraction with
    | nil => exact absurd rfl nonempty
    | cons c tail =>
      have digit := (Text.all_digits_iff _).mp all c (List.mem_cons_self ..)
      have run := split_digits_run (c :: tail) rest all fun other head => (stops other head).1
      simp only [List.cons_append] at run
      simp [splitFraction, digit, run]

theorem split_exponent_part (power rest : Text) (exponent : Int)
    (part : Decimal.PowerPart power exponent) (stops : Stops rest) :
    splitExponent (power ++ rest) = (power, rest) := by
  have noDigit : ∀ c, rest.head? = some c → c.isDigit = false :=
    fun c head => name_digit c (stops c head).1
  cases part with
  | none =>
    cases rest with
    | nil => rfl
    | cons c tail =>
      have outside := (stops c rfl).1
      have noMark : ¬ (c = 'e' ∨ c = 'E') := by
        rintro (rfl | rfl)
        · cases outside
        · cases outside
      simp [splitExponent, noMark]
  | some sign digits _ signed nonempty all =>
    cases digits with
    | nil => exact absurd rfl nonempty
    | cons c tail =>
      have digit := (Text.all_digits_iff _).mp all c (List.mem_cons_self ..)
      have run := split_digits_run (c :: tail) rest all noDigit
      simp only [List.cons_append] at run
      rcases signed with rfl | rfl | rfl
      · simp [splitExponent, digit, run]
      · simp [splitExponent, digit, run]
      · simp [splitExponent, digit, run]

theorem split_number_written (body rest : Text) (decimal : Decimal)
    (written : Decimal.Written body decimal) (stops : Stops rest) :
    splitNumber (body ++ rest) = (body, rest) := by
  obtain ⟨whole, fraction, exponent⟩ := decimal
  obtain ⟨_, all, point, power, rfl, pointPart, powerPart⟩ := written
  have afterPoint : ∀ c, (power ++ rest).head? = some c → c.isDigit = false ∧ c ≠ '.' := by
    intro c head
    cases powerPart with
    | none => exact ⟨name_digit c (stops c head).1, (stops c head).2⟩
    | some =>
      cases head
      exact ⟨rfl, by decide⟩
  have afterWhole : ∀ c, (point ++ (power ++ rest)).head? = some c → c.isDigit = false := by
    intro c head
    cases pointPart with
    | none => exact (afterPoint c head).1
    | some =>
      cases head
      rfl
  rw [splitNumber]
  simp only [List.append_assoc]
  rw [split_digits_run whole _ all afterWhole]
  simp only [split_fraction_part point _ _ pointPart afterPoint,
    split_exponent_part power rest _ powerPart stops]

theorem start_name (c : Char) (start : Text.isNameStart c = true) : Text.isNameChar c = true := by
  simp only [Text.isNameStart, Bool.or_eq_true, beq_iff_eq] at start
  rcases start with letter | rfl
  · simp [Text.isNameChar, Char.isAlphanum, letter]
  · rfl

theorem start_no_digit (c : Char) (start : Text.isNameStart c = true) : c.isDigit = false := by
  cases digit : c.isDigit with
  | false => rfl
  | true =>
    have bounds := Char.isDigit_iff_toNat.mp digit
    have code : c.toNat = c.val.toNat := rfl
    have letters : c.isAlpha = (c.isUpper || c.isLower) := rfl
    have capital : c.isUpper = decide ('A'.val ≤ c.val ∧ c.val ≤ 'Z'.val) := rfl
    have small : c.isLower = (decide ('a'.val ≤ c.val) && decide (c.val ≤ 'z'.val)) := rfl
    have nine : '9'.toNat = 57 := rfl
    have firstCapital : 'A'.val.toNat = 65 := rfl
    have firstSmall : 'a'.val.toNat = 97 := rfl
    simp only [Text.isNameStart, letters, capital, small, Bool.or_eq_true, Bool.and_eq_true,
      decide_eq_true_eq, UInt32.le_iff_toNat_le, beq_iff_eq] at start
    rcases start with (upper | lower) | rfl
    · omega
    · omega
    · cases digit

theorem split_word_run (word rest : Text) (all : word.all Text.isNameChar = true)
    (ends : ∀ c, rest.head? = some c → Text.isNameChar c = false) :
    splitWord (word ++ rest) = (word, rest) := by
  obtain ⟨front, back⟩ := run_ends word rest (List.all_eq_true.mp all) ends
  rw [splitWord]
  rw [front, back]

theorem of_word_key (first : Char) (rest word : Text) (start : Text.isNameStart first = true)
    (made : ofWord (first :: (splitWord rest).1) = .word word) : word.isKey = true := by
  rw [ofWord] at made
  split at made
  · cases made
  · cases made
    have all : (splitWord rest).1.all Text.isNameChar = true := List.all_takeWhile
    simp [Text.isKey, start, all]

theorem read_cases (first : Char) (rest left : Text) (token : Token)
    (found : read first rest = .ok (token, left)) :
    (∃ mark, token = .delimiter mark) ∨ (∃ place, token = .deferred place) ∨
    (∃ literal, token = .number literal) ∨
    (∃ inside, (first = '"' ∨ first = '\'') ∧ closeQuote? first rest = some (inside, left) ∧
      token = .quoted (first :: inside)) ∨
    (Text.isNameStart first = true ∧ token = ofWord (first :: (splitWord rest).1)) := by
  rw [read] at found
  split at found
  · rename_i mark _
    cases found
    exact .inl ⟨mark, rfl⟩
  · split at found
    · rename_i quote
      split at found
      · cases found
      · rename_i inside behind closed
        cases found
        exact .inr (.inr (.inr (.inl ⟨inside, quote, closed, rfl⟩)))
    · split at found
      · rw [readMarker] at found
        split at found
        · cases found
          exact .inr (.inl ⟨_, rfl⟩)
        · split at found
          · cases found
            exact .inr (.inl ⟨_, rfl⟩)
          · cases found
      · split at found
        · rw [readSigned] at found
          split at found
          · cases found
            exact .inr (.inr (.inl ⟨_, rfl⟩))
          · split at found
            · cases found
              exact .inr (.inr (.inl ⟨_, rfl⟩))
            · cases found
        · split at found
          · cases found
            exact .inr (.inr (.inl ⟨_, rfl⟩))
          · split at found
            · rename_i start
              cases found
              exact .inr (.inr (.inr (.inr ⟨start, rfl⟩)))
            · cases found

theorem read_word (first : Char) (rest left word : Text)
    (found : read first rest = .ok (.word word, left)) : word.isKey = true := by
  rcases read_cases first rest left _ found with
    ⟨_, same⟩ | ⟨_, same⟩ | ⟨_, same⟩ | ⟨_, _, _, same⟩ | ⟨start, made⟩
  · cases same
  · cases same
  · cases same
  · cases same
  · exact of_word_key first rest word start made.symm

theorem name_no_delimiter (c : Char) (name : Text.isNameChar c = true) :
    Delimiter.ofChar? c = none := by
  rw [Delimiter.ofChar?]
  rw [List.find?_eq_none]
  intro mark _ same
  have equal : mark.char = c := of_decide_eq_true same
  subst equal
  cases mark <;> cases name

theorem name_visible (c : Char) (name : Text.isNameChar c = true) :
    TokenStream.Visible c ∧ c ≠ '"' ∧ c ≠ '\'' ∧ c ≠ '@' ∧ c ≠ '+' ∧ c ≠ '-' := by
  refine ⟨⟨?_, ?_, ?_⟩, ?_, ?_, ?_, ?_, ?_⟩
  · cases gap : isGap c with
    | false => rfl
    | true =>
      simp only [isGap, Bool.or_eq_true, beq_iff_eq] at gap
      rcases gap with ((rfl | rfl) | rfl) | rfl <;> cases name
  all_goals
    rintro rfl
    cases name

end Token

namespace TokenStream

theorem reads_number (literal rest : Text) (tokens : List Token) (spelled : Number.Spelled literal)
    (stops : Token.Stops rest) (behind : Reads rest tokens) :
    Reads (literal ++ rest) (.number literal :: tokens) := by
  cases spelled with
  | infinite sign signed =>
    have word := Token.split_word_run Text.infinity rest (by decide) fun c head => (stops c head).1
    have letter : ((Text.infinity ++ rest).head?.any Char.isDigit) = false := rfl
    refine reads_token sign (Text.infinity ++ rest) rest _ tokens ?_ ?_ behind
    · rcases signed with rfl | rfl
      · exact ⟨rfl, by decide, by decide⟩
      · exact ⟨rfl, by decide, by decide⟩
    · rcases signed with rfl | rfl
      · change Token.readSigned '+' (Text.infinity ++ rest) = _
        simp only [Token.readSigned, letter, word, Bool.false_eq_true, if_false, if_true]
      · change Token.readSigned '-' (Text.infinity ++ rest) = _
        simp only [Token.readSigned, letter, word, Bool.false_eq_true, if_false, if_true]
  | decimal sign body signed decimal written =>
    have number := Token.split_number_written body rest decimal written stops
    obtain ⟨first, tail, same, digit⟩ := Decimal.written_head body decimal written
    subst same
    rcases signed with rfl | rfl | rfl
    · obtain ⟨visible, double, single, at', plus, minus⟩ :=
        Token.name_visible first (Token.digit_name first digit)
      refine reads_token first (tail ++ rest) rest _ tokens visible ?_ behind
      rw [Token.read]
      rw [Token.name_no_delimiter first (Token.digit_name first digit)]
      simp only [List.cons_append] at number
      simp [double, single, at', plus, minus, digit, number]
    · refine reads_token '+' (first :: tail ++ rest) rest _ tokens ⟨rfl, by decide, by decide⟩ ?_ behind
      change Token.readSigned '+' (first :: tail ++ rest) = _
      simp only [List.cons_append] at number
      simp [Token.readSigned, digit, number]
    · refine reads_token '-' (first :: tail ++ rest) rest _ tokens ⟨rfl, by decide, by decide⟩ ?_ behind
      change Token.readSigned '-' (first :: tail ++ rest) = _
      simp only [List.cons_append] at number
      simp [Token.readSigned, digit, number]

theorem reads_name (word rest : Text) (tokens : List Token) (key : word.isKey = true)
    (finite : word ≠ Text.infinity)
    (ends : ∀ c, rest.head? = some c → Text.isNameChar c = false) (behind : Reads rest tokens) :
    Reads (word ++ rest) (.word word :: tokens) := by
  cases word with
  | nil => cases key
  | cons first tail =>
    simp only [Text.isKey, Bool.and_eq_true] at key
    have start := key.1
    have name := Token.start_name first start
    have run := Token.split_word_run tail rest key.2 ends
    obtain ⟨visible, double, single, at', plus, minus⟩ := Token.name_visible first name
    refine reads_token first (tail ++ rest) rest _ tokens visible ?_ behind
    rw [Token.read]
    rw [Token.name_no_delimiter first name]
    simp [double, single, at', plus, minus, Token.start_no_digit first start, start, run,
      Token.ofWord, finite]

theorem reads_word (word rest : Text) (tokens : List Token) (key : word.isKey = true)
    (finite : word ≠ Text.infinity) (stops : Token.Stops rest) (behind : Reads rest tokens) :
    Reads (word ++ rest) (.word word :: tokens) :=
  reads_name word rest tokens key finite (fun c head => (stops c head).1) behind

theorem reads_string (content rest : Text) (tokens : List Token) (behind : Reads rest tokens) :
    Reads (Text.quoted content.escape ++ rest) (.quoted (Text.quoted content.escape) :: tokens) := by
  have closed := Token.close_quote_escape content rest
  have text : Text.quoted content.escape ++ rest = '"' :: (Text.escape content ++ '"' :: rest) := by
    simp [Text.quoted]
  rw [text]
  refine reads_token '"' _ rest _ tokens ⟨rfl, by decide, by decide⟩ ?_ behind
  have mark : Delimiter.ofChar? '"' = none := rfl
  rw [Token.read]
  rw [mark]
  simp [closed, Text.quoted]

theorem reads_mark (mark : Delimiter) (rest : Text) (tokens : List Token)
    (behind : Reads rest tokens) : Reads (mark.char :: rest) (.delimiter mark :: tokens) := by
  refine reads_token mark.char rest rest _ tokens ?_ ?_ behind
  · cases mark <;> exact ⟨rfl, by decide, by decide⟩
  · cases mark <;> rfl

end TokenStream

theorem Parser.shown_cons (tokens : List Located) (token : Token) (more : List Token)
    (shown : tokens.map Located.token = token :: more) :
    ∃ position rest, tokens = ⟨token, position⟩ :: rest ∧ rest.map Located.token = more := by
  obtain ⟨⟨_, position⟩, rest, rfl, rfl, behind⟩ := List.map_eq_cons_iff.mp shown
  exact ⟨position, rest, rfl, behind⟩

end ParamStore

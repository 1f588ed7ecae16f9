import ParamStore.Proofs.TokenRuns

set_option autoImplicit false

namespace ParamStore
namespace Token

def startsGap (c : Char) : Bool := isGap c || c == '#' || c == '/'

-- The tail goes on as the text does up to some place, where the text goes on or a gap starts. Reading
-- looks up to three characters ahead; at the first character of a gap every such look gives up.
inductive Loosens : Text → Text → Prop where
  | same (text : Text) : Loosens text text
  | gap (text : Text) (c : Char) (more : Text) (starts : startsGap c = true) : Loosens text (c :: more)
  | step (c : Char) (text tail : Text) (later : Loosens text tail) : Loosens (c :: text) (c :: tail)

theorem loosens_behind (before text tail : Text) (loose : Loosens text tail) :
    Loosens (before ++ text) (before ++ tail) := by
  induction before with
  | nil => exact loose
  | cons c rest ih => exact .step c _ _ ih

theorem gap_cases (c : Char) (starts : startsGap c = true) :
    c = ' ' ∨ c = '\t' ∨ c = '\r' ∨ c = '\n' ∨ c = '#' ∨ c = '/' := by
  simpa [startsGap, isGap, or_assoc] using starts

theorem gap_no_name (c : Char) (starts : startsGap c = true) : Text.isNameChar c = false := by
  rcases gap_cases c starts with rfl | rfl | rfl | rfl | rfl | rfl <;> rfl

theorem gap_no_digit (c : Char) (starts : startsGap c = true) : c.isDigit = false :=
  name_digit c (gap_no_name c starts)

theorem gap_no_mark (c : Char) (starts : startsGap c = true) :
    c ≠ '.' ∧ c ≠ '+' ∧ c ≠ '-' ∧ c ≠ 'e' ∧ c ≠ 'E' := by
  rcases gap_cases c starts with rfl | rfl | rfl | rfl | rfl | rfl <;> decide

theorem loosens_ahead (kept : Char → Bool) (outside : ∀ c, startsGap c = true → kept c = false)
    (text tail : Text) (loose : Loosens text tail) (ahead : tail.head?.any kept = true) :
    text.head?.any kept = true := by
  cases loose with
  | same => exact ahead
  | gap _ c more starts =>
    have inside : kept c = true := ahead
    rw [outside c starts] at inside
    cases inside
  | step => exact ahead

theorem loosens_head (kept : Char → Bool) (outside : ∀ c, startsGap c = true → kept c = false)
    (text tail : Text) (loose : Loosens text tail)
    (stops : ∀ c, text.head? = some c → kept c = false) :
    ∀ c, tail.head? = some c → kept c = false := by
  intro c head
  by_contra inside
  have ahead := loosens_ahead kept outside text tail loose (by simpa [head] using inside)
  obtain ⟨d, first, keeps⟩ := (Option.any_eq_true _ _).mp ahead
  rw [stops d first] at keeps
  cases keeps

-- A cut that takes a part off a text takes the same part off where the text behind it is loosened.
def Cuts (split : Text → Text × Text) : Prop :=
  ∀ part text tail, Loosens text tail → split (part ++ text) = (part, text) →
    split (part ++ tail) = (part, tail)

theorem run_cuts (kept : Char → Bool) (outside : ∀ c, startsGap c = true → kept c = false) :
    Cuts fun text => (text.takeWhile kept, text.dropWhile kept) := by
  intro part text tail loose found
  obtain ⟨taken, left⟩ := Prod.mk.inj found
  have all : ∀ c ∈ part, kept c = true := by
    rw [← taken]
    exact List.all_eq_true.mp List.all_takeWhile
  have stops : ∀ c, text.head? = some c → kept c = false := by
    intro c head
    have ahead := List.head?_dropWhile_not kept (part ++ text)
    rw [left, head] at ahead
    exact ahead
  obtain ⟨front, back⟩ := run_ends part tail all (loosens_head kept outside text tail loose stops)
  exact Prod.ext front back

theorem split_digits_cuts : Cuts splitDigits := run_cuts Char.isDigit gap_no_digit

theorem split_word_cuts : Cuts splitWord := run_cuts Text.isNameChar gap_no_name

theorem split_digits_join (text : Text) : (splitDigits text).1 ++ (splitDigits text).2 = text :=
  List.takeWhile_append_dropWhile

theorem split_word_join (text : Text) : (splitWord text).1 ++ (splitWord text).2 = text :=
  List.takeWhile_append_dropWhile

theorem split_digits_stops (text : Text) (none : (splitDigits text).1 = []) :
    ∀ c, text.head? = some c → c.isDigit = false := by
  intro c head
  cases text with
  | nil => cases head
  | cons first rest =>
    cases head
    by_cases digit : c.isDigit = true
    · simp [splitDigits, digit] at none
    · simpa using digit

theorem split_fraction_join (text : Text) : (splitFraction text).1 ++ (splitFraction text).2 = text := by
  unfold splitFraction
  split
  · rename_i c rest
    split
    · exact congrArg ('.' :: ·) (split_digits_join (c :: rest))
    · rfl
  · rfl

theorem split_exponent_join (text : Text) : (splitExponent text).1 ++ (splitExponent text).2 = text := by
  unfold splitExponent
  split
  · rfl
  · rename_i mark rest
    split
    · split
      · rfl
      · rename_i c tail
        split
        · exact congrArg (mark :: ·) (split_digits_join (c :: tail))
        · split
          · exact congrArg (mark :: c :: ·) (split_digits_join tail)
          · rfl
    · rfl

theorem cut_nothing (split : Text → Text × Text) (join : ∀ text, (split text).1 ++ (split text).2 = text)
    (text : Text) (none : ∀ c part left, split text ≠ (c :: part, left)) : split text = ([], text) := by
  have joined := join text
  generalize split text = taken at joined none
  obtain ⟨part, left⟩ := taken
  cases part with
  | nil => rw [← joined, List.nil_append]
  | cons c rest => exact absurd rfl (none c rest left)

theorem digits_cut (digits text tail : Text) (loose : Loosens text tail)
    (ahead : (digits ++ text).head?.any Char.isDigit = true)
    (found : splitDigits (digits ++ text) = (digits, text)) :
    (digits ++ tail).head?.any Char.isDigit = true ∧ splitDigits (digits ++ tail) = (digits, tail) := by
  refine ⟨?_, split_digits_cuts digits text tail loose found⟩
  cases digits with
  | nil =>
    have stops := split_digits_stops text (congrArg Prod.fst found)
    cases text with
    | nil => cases ahead
    | cons c rest =>
      have digit : c.isDigit = true := ahead
      rw [stops c rfl] at digit
      cases digit
  | cons d more => exact ahead

theorem split_fraction_iff (text : Text) (c : Char) (digits left : Text) :
    splitFraction text = (c :: digits, left) ↔
      c = '.' ∧ ∃ rest, text = '.' :: rest ∧ rest.head?.any Char.isDigit = true ∧
        splitDigits rest = (digits, left) := by
  constructor
  · intro found
    unfold splitFraction at found
    split at found
    · rename_i d rest
      split at found
      · rename_i digit
        obtain ⟨taken, rfl⟩ := Prod.mk.inj found
        obtain ⟨rfl, rfl⟩ := List.cons.inj taken
        exact ⟨rfl, d :: rest, rfl, digit, rfl⟩
      · cases found
    · cases found
  · rintro ⟨rfl, rest, rfl, ahead, found⟩
    cases rest with
    | nil => cases ahead
    | cons d more =>
      have digit : d.isDigit = true := ahead
      rw [splitFraction, if_pos digit, found]

theorem split_fraction_cuts : Cuts splitFraction := by
  intro part text tail loose found
  cases part with
  | nil =>
    refine cut_nothing splitFraction split_fraction_join tail fun c digits left taken => ?_
    obtain ⟨rfl, rest, rfl, ahead, _⟩ := (split_fraction_iff _ _ _ _).mp taken
    cases loose with
    | same => cases found.symm.trans taken
    | gap _ _ _ starts => exact (gap_no_mark _ starts).1 rfl
    | step _ text _ later =>
      have aheadHere := loosens_ahead Char.isDigit gap_no_digit text rest later ahead
      cases found.symm.trans ((split_fraction_iff _ _ _ _).mpr ⟨rfl, text, rfl, aheadHere, rfl⟩)
  | cons c digits =>
    obtain ⟨rfl, rest, same, ahead, taken⟩ := (split_fraction_iff _ _ _ _).mp found
    obtain ⟨_, rfl⟩ := List.cons.inj same
    obtain ⟨aheadToo, cut⟩ := digits_cut digits text tail loose ahead taken
    exact (split_fraction_iff _ _ _ _).mpr ⟨rfl, _, rfl, aheadToo, cut⟩

def Power (rest power left : Text) : Prop :=
  (rest.head?.any Char.isDigit = true ∧ splitDigits rest = (power, left)) ∨
    ∃ sign more digits, rest = sign :: more ∧ (sign = '+' ∨ sign = '-') ∧
      more.head?.any Char.isDigit = true ∧ power = sign :: digits ∧ splitDigits more = (digits, left)

theorem split_exponent_iff (text : Text) (mark : Char) (power left : Text) :
    splitExponent text = (mark :: power, left) ↔
      (mark = 'e' ∨ mark = 'E') ∧ ∃ rest, text = mark :: rest ∧ Power rest power left := by
  constructor
  · intro found
    unfold splitExponent at found
    split at found
    · cases found
    · rename_i first rest
      split at found
      · rename_i marked
        split at found
        · cases found
        · rename_i c tail
          split at found
          · rename_i digit
            obtain ⟨taken, rfl⟩ := Prod.mk.inj found
            obtain ⟨rfl, rfl⟩ := List.cons.inj taken
            exact ⟨marked, _, rfl, .inl ⟨digit, rfl⟩⟩
          · split at found
            · rename_i signed
              obtain ⟨taken, rfl⟩ := Prod.mk.inj found
              obtain ⟨rfl, rfl⟩ := List.cons.inj taken
              exact ⟨marked, _, rfl, .inr ⟨c, tail, _, rfl, signed.1, signed.2, rfl, rfl⟩⟩
            · cases found
      · cases found
  · rintro ⟨marked, rest, rfl, ⟨ahead, taken⟩ | ⟨sign, more, digits, rfl, signed, ahead, rfl, taken⟩⟩
    · cases rest with
      | nil => cases ahead
      | cons c tail =>
        have digit : c.isDigit = true := ahead
        simp only [splitExponent, marked, if_true, digit, taken]
    · have noDigit : sign.isDigit = false := by rcases signed with rfl | rfl <;> rfl
      simp [splitExponent, marked, noDigit, signed, ahead, taken]

theorem power_cut (power text tail : Text) (loose : Loosens text tail)
    (found : Power (power ++ text) power text) : Power (power ++ tail) power tail := by
  rcases found with ⟨ahead, taken⟩ | ⟨sign, more, digits, same, signed, ahead, rfl, taken⟩
  · exact .inl (digits_cut power text tail loose ahead taken)
  · obtain ⟨_, rfl⟩ := List.cons.inj same
    obtain ⟨aheadToo, cut⟩ := digits_cut digits text tail loose ahead taken
    exact .inr ⟨sign, _, digits, rfl, signed, aheadToo, rfl, cut⟩

theorem power_ahead (text tail : Text) (loose : Loosens text tail) (power left : Text)
    (found : Power tail power left) : ∃ power left, Power text power left := by
  rcases found with ⟨ahead, _⟩ | ⟨sign, more, _, rfl, signed, ahead, _, _⟩
  · exact ⟨_, _, .inl ⟨loosens_ahead Char.isDigit gap_no_digit text tail loose ahead, rfl⟩⟩
  · cases loose with
    | same => exact ⟨_, _, .inr ⟨sign, more, _, rfl, signed, ahead, rfl, rfl⟩⟩
    | gap _ _ _ starts =>
      obtain ⟨_, plus, minus, _⟩ := gap_no_mark sign starts
      exact absurd signed (not_or.mpr ⟨plus, minus⟩)
    | step _ text _ later =>
      have aheadHere := loosens_ahead Char.isDigit gap_no_digit text more later ahead
      exact ⟨_, _, .inr ⟨sign, text, _, rfl, signed, aheadHere, rfl, rfl⟩⟩

theorem split_exponent_cuts : Cuts splitExponent := by
  intro part text tail loose found
  cases part with
  | nil =>
    refine cut_nothing splitExponent split_exponent_join tail fun mark power left taken => ?_
    obtain ⟨marked, rest, rfl, powered⟩ := (split_exponent_iff _ _ _ _).mp taken
    cases loose with
    | same => cases found.symm.trans taken
    | gap _ _ _ starts =>
      obtain ⟨_, _, _, small, capital⟩ := gap_no_mark mark starts
      exact absurd marked (not_or.mpr ⟨small, capital⟩)
    | step _ text _ later =>
      obtain ⟨_, _, here⟩ := power_ahead text rest later power left powered
      cases found.symm.trans ((split_exponent_iff _ _ _ _).mpr ⟨marked, text, rfl, here⟩)
  | cons mark power =>
    obtain ⟨marked, rest, same, powered⟩ := (split_exponent_iff _ _ _ _).mp found
    obtain ⟨_, rfl⟩ := List.cons.inj same
    exact (split_exponent_iff _ _ _ _).mpr ⟨marked, _, rfl, power_cut power text tail loose powered⟩

theorem split_number_join (text : Text) : (splitNumber text).1 ++ (splitNumber text).2 = text := by
  simp only [splitNumber, List.append_assoc, split_exponent_join, split_fraction_join, split_digits_join]

theorem split_number_cuts : Cuts splitNumber := by
  intro part text tail loose found
  have wholeJoin := split_digits_join (part ++ text)
  have fractionJoin := split_fraction_join (splitDigits (part ++ text)).2
  have powerJoin := split_exponent_join (splitFraction (splitDigits (part ++ text)).2).2
  rw [splitNumber] at found
  generalize wholeIs : splitDigits (part ++ text) = whole at *
  generalize fractionIs : splitFraction whole.2 = fraction at *
  generalize powerIs : splitExponent fraction.2 = power at *
  obtain ⟨rfl, rfl⟩ := Prod.mk.inj found
  obtain ⟨whole, behindWhole⟩ := whole
  obtain ⟨fraction, behindFraction⟩ := fraction
  obtain ⟨power, text⟩ := power
  subst powerJoin
  subst fractionJoin
  have powerLoose := loosens_behind power text tail loose
  have fractionLoose := loosens_behind fraction _ _ powerLoose
  have wholeCut := split_digits_cuts whole _ _ fractionLoose (by simpa using wholeIs)
  have fractionCut := split_fraction_cuts fraction _ _ powerLoose fractionIs
  have powerCut := split_exponent_cuts power text tail loose powerIs
  simp only [splitNumber, List.append_assoc, wholeCut, fractionCut, powerCut]

theorem close_quote_cut (quote : Char) (text inside left : Text)
    (closed : closeQuote? quote text = some (inside, left)) :
    text = inside ++ left ∧ ∀ tail, closeQuote? quote (inside ++ tail) = some (inside, tail) := by
  fun_induction closeQuote? quote text generalizing inside left with
  | case1 => cases closed
  | case2 =>
    cases closed
    refine ⟨rfl, fun tail => ?_⟩
    cases tail with
    | nil => simp [closeQuote?]
    | cons next rest =>
      have noEscape : ¬ (quote = '\\' ∧ quote = '"') := by
        rintro ⟨rfl, same⟩
        cases same
      simp [closeQuote?, noEscape]
  | case3 => cases closed
  | case4 c next rest escaped ih =>
    obtain ⟨⟨behind, remaining⟩, found, same⟩ := Option.map_eq_some_iff.mp closed
    cases same
    obtain ⟨rfl, cut⟩ := ih _ _ found
    refine ⟨rfl, fun tail => ?_⟩
    rw [List.cons_append, List.cons_append, closeQuote?, if_pos escaped, cut tail]
    rfl
  | case5 next rest plain =>
    cases closed
    refine ⟨rfl, fun tail => ?_⟩
    cases tail with
    | nil => simp [closeQuote?]
    | cons c more => simp [closeQuote?, plain]
  | case6 c next rest plain different ih =>
    obtain ⟨⟨behind, remaining⟩, found, same⟩ := Option.map_eq_some_iff.mp closed
    cases same
    obtain ⟨join, cut⟩ := ih _ _ found
    refine ⟨congrArg (c :: ·) join, fun tail => ?_⟩
    cases behind with
    | nil => cases cut []
    | cons d more =>
      have later := cut tail
      simp only [List.cons_append] at later
      simp [closeQuote?, plain, different, later]

theorem number_ahead (text : Text) (ahead : text.head?.any Char.isDigit = true) :
    ∃ c more, (splitNumber text).1 = c :: more ∧ c.isDigit = true := by
  cases text with
  | nil => cases ahead
  | cons c rest =>
    have digit : c.isDigit = true := ahead
    have starts : (splitNumber (c :: rest)).1 = c :: ((splitNumber (c :: rest)).1.tail) := by
      simp only [splitNumber, splitDigits, List.takeWhile_cons, digit, if_true, List.cons_append,
        List.tail_cons]
    exact ⟨c, _, starts, digit⟩

theorem signed_cut (sign : Char) (rest left : Text) (token : Token)
    (found : readSigned sign rest = .ok (token, left)) :
    ∃ body, token.text = sign :: body ∧ rest = body ++ left ∧
      ∀ tail, Loosens left tail → readSigned sign (body ++ tail) = .ok (token, tail) := by
  rw [readSigned] at found
  split at found
  · rename_i ahead
    cases found
    have join := split_number_join rest
    obtain ⟨c, more, starts, digit⟩ := number_ahead rest ahead
    refine ⟨(splitNumber rest).1, rfl, join.symm, fun tail loose => ?_⟩
    have cut := split_number_cuts _ _ tail loose (by rw [join])
    have aheadToo : ((splitNumber rest).1 ++ tail).head?.any Char.isDigit = true := by
      rw [starts]
      exact digit
    simp only [readSigned, aheadToo, if_true, cut]
  · split at found
    · rename_i infinite
      cases found
      have join := split_word_join rest
      refine ⟨(splitWord rest).1, rfl, join.symm, fun tail loose => ?_⟩
      have cut := split_word_cuts _ _ tail loose (by rw [join])
      have noDigit : ((splitWord rest).1 ++ tail).head?.any Char.isDigit = false := by
        rw [infinite]
        rfl
      rw [readSigned, noDigit, if_neg Bool.false_ne_true, cut, if_pos infinite]
    · cases found

theorem marker_cut (rest left : Text) (token : Token) (found : readMarker rest = .ok (token, left)) :
    ∃ body, token.text = '@' :: body ∧ rest = body ++ left ∧
      ∀ tail, Loosens left tail → readMarker (body ++ tail) = .ok (token, tail) := by
  have join := split_word_join rest
  rw [readMarker] at found
  split at found
  · rename_i file
    cases found
    refine ⟨(splitWord rest).1, by rw [file]; rfl, join.symm, fun tail loose => ?_⟩
    have cut := split_word_cuts _ _ tail loose (by rw [join])
    rw [readMarker, cut, if_pos file]
  · rename_i noFile
    split at found
    · rename_i database
      cases found
      refine ⟨(splitWord rest).1, by rw [database]; rfl, join.symm, fun tail loose => ?_⟩
      have cut := split_word_cuts _ _ tail loose (by rw [join])
      rw [readMarker, cut, if_neg noFile, if_pos database]
    · cases found

theorem delimiter_char (c : Char) (mark : Delimiter) (found : Delimiter.ofChar? c = some mark) :
    mark.char = c := by
  rw [Delimiter.ofChar?] at found
  have same := List.find?_some found
  exact of_decide_eq_true same

theorem of_word_text (word : Text) : (ofWord word).text = word := by
  rw [ofWord]
  split <;> rfl

theorem read_cut (first : Char) (rest left : Text) (token : Token)
    (found : read first rest = .ok (token, left)) :
    ∃ body, token.text = first :: body ∧ rest = body ++ left ∧
      ∀ tail, Loosens left tail → read first (body ++ tail) = .ok (token, tail) := by
  rw [read] at found
  split at found
  · rename_i mark marked
    cases found
    refine ⟨[], by rw [← delimiter_char first mark marked]; rfl, rfl, fun tail _ => ?_⟩
    simp only [read, marked, List.nil_append]
  · rename_i noMark
    split at found
    · rename_i quote
      split at found
      · cases found
      · rename_i inside behind closed
        cases found
        obtain ⟨join, cut⟩ := close_quote_cut first rest inside left closed
        refine ⟨inside, rfl, join, fun tail _ => ?_⟩
        simp only [read, noMark, quote, if_true, cut]
    · rename_i noQuote
      split at found
      · rename_i place
        obtain ⟨body, text, join, cut⟩ := marker_cut rest left token found
        refine ⟨body, place ▸ text, join, fun tail loose => ?_⟩
        simp only [read, noMark, if_neg noQuote, if_pos place, cut tail loose]
      · rename_i noPlace
        split at found
        · rename_i signed
          obtain ⟨body, text, join, cut⟩ := signed_cut first rest left token found
          refine ⟨body, text, join, fun tail loose => ?_⟩
          simp only [read, noMark, if_neg noQuote, if_neg noPlace, if_pos signed, cut tail loose]
        · rename_i noSign
          split at found
          · rename_i digit
            cases found
            have join := split_number_join (first :: rest)
            have cut := split_number_cuts (splitNumber (first :: rest)).1 (splitNumber (first :: rest)).2
            rw [join] at cut
            obtain ⟨c, more, starts, _⟩ := number_ahead (first :: rest) digit
            rw [starts] at join cut ⊢
            obtain ⟨rfl, behind⟩ := List.cons.inj join
            refine ⟨more, rfl, behind.symm, fun tail loose => ?_⟩
            have same := cut tail loose (Prod.ext starts rfl)
            rw [List.cons_append] at same
            simp only [read, noMark, if_neg noQuote, if_neg noPlace, if_neg noSign, if_pos digit, same]
          · rename_i noDigit
            split at found
            · rename_i start
              cases found
              have join := split_word_join rest
              refine ⟨(splitWord rest).1, of_word_text _, join.symm, fun tail loose => ?_⟩
              have cut := split_word_cuts _ _ tail loose (by rw [join])
              simp only [read, noMark, if_neg noQuote, if_neg noPlace, if_neg noSign, if_neg noDigit,
                if_pos start, cut]
            · cases found

theorem read_visible (first : Char) (rest left : Text) (token : Token)
    (found : read first rest = .ok (token, left)) : TokenStream.Visible first := by
  cases starts : startsGap first with
  | true => rcases gap_cases first starts with rfl | rfl | rfl | rfl | rfl | rfl <;> cases found
  | false =>
    simp only [startsGap, Bool.or_eq_false_iff, beq_eq_false_iff_ne] at starts
    exact ⟨starts.1.1, starts.1.2, starts.2⟩

theorem skip_gap_rest (inComment : Bool) (position other : Position) (text : Text) :
    (skipGap inComment position text).2 = (skipGap inComment other text).2 := by
  induction text generalizing inComment position other with
  | nil => rfl
  | cons c rest ih =>
    rw [skipGap, skipGap]
    split
    · exact ih _ _ _
    · split
      · exact ih _ _ _
      · split
        · exact ih _ _ _
        · rfl

-- Skipping passes over all of this text, whatever is behind it, and is then outside of comments.
def Passes (inComment : Bool) (gap : Text) : Prop :=
  ∀ position tail, ∃ start, skipGap inComment position (gap ++ tail) = skipGap false start tail

theorem passes_line (line : Text) (inside : '\n' ∉ line) (gap : Text) (later : Passes false gap) :
    Passes true (line ++ '\n' :: gap) := by
  intro position tail
  induction line generalizing position with
  | nil => exact later (position.next '\n') tail
  | cons c rest ih =>
    obtain ⟨different, inRest⟩ : '\n' ≠ c ∧ '\n' ∉ rest := by simpa using inside
    obtain ⟨start, passed⟩ := ih inRest (position.next c)
    refine ⟨start, ?_⟩
    rw [List.cons_append, List.cons_append, skipGap, if_pos rfl, bne_iff_ne.mpr (Ne.symm different)]
    exact passed

inductive Layout : Text → Prop where
  | nil : Layout []
  | blank (c : Char) (rest : Text) (gap : isGap c = true) (later : Layout rest) : Layout (c :: rest)
  | hash (line rest : Text) (inside : '\n' ∉ line) (later : Layout rest) :
      Layout ('#' :: (line ++ '\n' :: rest))
  | slashes (line rest : Text) (inside : '\n' ∉ line) (later : Layout rest) :
      Layout ('/' :: '/' :: (line ++ '\n' :: rest))

theorem layout_passes (gap : Text) (layout : Layout gap) : Passes false gap := by
  induction layout with
  | nil => exact fun position tail => ⟨position, rfl⟩
  | blank c rest blank _ ih =>
    intro position tail
    obtain ⟨start, passed⟩ := ih (position.next c) tail
    refine ⟨start, ?_⟩
    rw [List.cons_append, skipGap, if_neg Bool.false_ne_true, if_pos blank]
    exact passed
  | hash line rest inside _ ih =>
    exact fun position tail => passes_line line inside rest ih (position.next '#') tail
  | slashes line rest inside _ ih =>
    exact fun position tail =>
      passes_line ('/' :: line) (by simp [inside]) rest ih (position.next '/') tail

theorem layout_starts (c : Char) (rest : Text) (layout : Layout (c :: rest)) : startsGap c = true := by
  cases layout with
  | blank _ _ gap => simp [startsGap, gap]
  | hash => rfl
  | slashes => rfl

theorem gap_before (inComment : Bool) (position start : Position) (text : Text) (first : Char)
    (rest : Text) (skipped : skipGap inComment position text = (start, first :: rest)) :
    ∃ gap, text = gap ++ first :: rest ∧ (inComment = true → gap ≠ []) ∧ Passes inComment gap := by
  induction text generalizing inComment position with
  | nil => cases skipped
  | cons c more ih =>
    rw [skipGap] at skipped
    split at skipped
    · rename_i comment
      obtain ⟨gap, rfl, _, passes⟩ := ih _ _ skipped
      refine ⟨c :: gap, rfl, fun _ => List.cons_ne_nil c gap, fun position tail => ?_⟩
      rw [List.cons_append, skipGap, if_pos comment]
      exact passes (position.next c) tail
    · rename_i outside
      split at skipped
      · rename_i blank
        obtain ⟨gap, rfl, _, passes⟩ := ih _ _ skipped
        refine ⟨c :: gap, rfl, fun comment => absurd comment outside, fun position tail => ?_⟩
        rw [List.cons_append, skipGap, if_neg outside, if_pos blank]
        exact passes (position.next c) tail
      · rename_i visible
        split at skipped
        · rename_i opens
          obtain ⟨gap, rfl, nonempty, passes⟩ := ih _ _ skipped
          refine ⟨c :: gap, rfl, fun comment => absurd comment outside, fun position tail => ?_⟩
          -- The second slash is in the gap as well, because the comment goes on to the end of its line.
          have ahead : (gap ++ tail).head? = (gap ++ first :: rest).head? := by
            cases gap with
            | nil => exact absurd rfl (nonempty rfl)
            | cons d behind => rfl
          rw [List.cons_append, skipGap, if_neg outside, if_neg visible, ahead, if_pos opens]
          exact passes (position.next c) tail
        · cases skipped
          exact ⟨[], rfl, fun comment => absurd comment outside, fun position tail => ⟨position, by
            rw [Bool.eq_false_iff.mpr outside]
            rfl⟩⟩

end Token

namespace TokenStream

theorem scan_reads (position : Position) (source : Text) (stream : TokenStream)
    (scanned : scan position source = .ok stream) :
    Reads source (stream.tokens.map Located.token) := by
  fun_induction scan position source generalizing stream with
  | case1 position source stop gap =>
    cases scanned
    intro other
    have rest := Token.skip_gap_rest false other position source
    rw [gap] at rest
    generalize same : Token.skipGap false other source = split at rest
    obtain ⟨place, left⟩ := split
    cases rest
    exact ⟨⟨[], place⟩, by rw [scan_step, same], rfl⟩
  | case2 => cases scanned
  | case3 position source start first rest gap token left found ih =>
    obtain ⟨behind, read, rfl⟩ := (Outcome.map_ok _ _ _).mp scanned
    intro other
    have visible := Token.skip_gap_rest false other position source
    rw [gap] at visible
    generalize same : Token.skipGap false other source = split at visible
    obtain ⟨place, shown⟩ := split
    cases visible
    obtain ⟨later, scannedLater, tokens⟩ := ih behind read (place.after token.text)
    refine ⟨⟨⟨token, place⟩ :: later.tokens, later.stop⟩, ?_, by simp [tokens]⟩
    rw [scan_step, same]
    simp only [found, scannedLater]
    rfl

theorem reads_behind (gap text : Text) (tokens : List Token) (passes : Token.Passes false gap)
    (reads : Reads text tokens) : Reads (gap ++ text) tokens := by
  intro position
  obtain ⟨start, passed⟩ := passes position text
  obtain ⟨stream, scanned, same⟩ := reads start
  refine ⟨stream, ?_, same⟩
  rw [← scanned, scan_step, scan_step start, passed]

end TokenStream
end ParamStore

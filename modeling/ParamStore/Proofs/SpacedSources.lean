import ParamStore.Materialize
import ParamStore.Proofs.TokenTails
import ParamStore.Proofs.UnplacedReading

set_option autoImplicit false

namespace ParamStore
namespace TokenStream

def first? (source : Text) : Option (Text × Token × Text) :=
  match Token.skipGap false .start source with
  | (_, []) => none
  | (_, first :: rest) =>
    match Token.read first rest with
    | .error _ => none
    | .ok (token, left) => some (source.take (source.length - (rest.length + 1)), token, left)

def spaced : List (Text × Text) → Text → Text
  | [], source => source
  | (before, behind) :: more, source =>
    match first? source with
    | none => source
    | some (gap, token, left) => gap ++ before ++ token.text ++ behind ++ spaced more left

structure Begins (source gap : Text) (token : Token) (left : Text) : Prop where
  passes : Token.Passes false gap
  join : source = gap ++ (token.text ++ left)
  reads : ∀ tail tokens, Token.Loosens left tail → Reads tail tokens →
    Reads (token.text ++ tail) (token :: tokens)

theorem first_begins (source gap left : Text) (token : Token)
    (found : first? source = some (gap, token, left)) : Begins source gap token left := by
  rw [first?] at found
  split at found
  · cases found
  · rename_i start first rest skipped
    split at found
    · cases found
    · rename_i made behind read
      obtain ⟨before, join, _, passes⟩ := Token.gap_before false .start start source first rest skipped
      obtain ⟨body, text, behindJoin, cut⟩ := Token.read_cut first rest behind made read
      have visible := Token.read_visible first rest behind made read
      have gapIs : source.take (source.length - (rest.length + 1)) = before := by
        rw [join]
        simp
      rw [gapIs] at found
      cases found
      refine ⟨passes, by rw [join, text, behindJoin, List.cons_append], fun tail tokens loose reads => ?_⟩
      rw [text, List.cons_append]
      exact reads_token first _ tail _ tokens visible (cut tail loose) reads

theorem reads_first (source gap left : Text) (token : Token) (tokens : List Token)
    (found : first? source = some (gap, token, left)) (reads : Reads source tokens) :
    ∃ more, tokens = token :: more ∧ Reads left more := by
  obtain ⟨stream, scanned, rfl⟩ := reads .start
  rw [scan_step] at scanned
  rw [first?] at found
  split at found
  · cases found
  · rename_i start first rest skipped
    split at found
    · cases found
    · rename_i made behind read
      cases found
      simp only [skipped, read] at scanned
      obtain ⟨later, scannedLater, rfl⟩ := (Outcome.map_ok _ _ _).mp scanned
      exact ⟨_, rfl, scan_reads _ left later scannedLater⟩

def AllLayout (inserts : List (Text × Text)) : Prop :=
  ∀ places ∈ inserts, Token.Layout places.1 ∧ Token.Layout places.2

theorem layout_loosens (gap text tail : Text) (layout : Token.Layout gap)
    (loose : Token.Loosens text tail) : Token.Loosens text (gap ++ tail) := by
  cases gap with
  | nil => exact loose
  | cons c rest => exact .gap text c (rest ++ tail) (Token.layout_starts c rest layout)

theorem spaced_loosens (inserts : List (Text × Text)) (layouts : AllLayout inserts) (source : Text) :
    Token.Loosens source (spaced inserts source) := by
  induction inserts generalizing source with
  | nil => exact .same source
  | cons places more ih =>
    obtain ⟨before, behind⟩ := places
    obtain ⟨⟨beforeLayout, behindLayout⟩, later⟩ := List.forall_mem_cons.mp layouts
    cases found : first? source with
    | none =>
      simp only [spaced, found]
      exact .same source
    | some parts =>
      obtain ⟨gap, token, left⟩ := parts
      have begins := first_begins source gap left token found
      simp only [spaced, found, List.append_assoc]
      have inner := layout_loosens behind left _ behindLayout (ih later left)
      have outer := layout_loosens before _ _ beforeLayout (Token.loosens_behind token.text _ _ inner)
      have whole := Token.loosens_behind gap _ _ outer
      rwa [← begins.join] at whole

-- The induction is on what is inserted. Each token stands as before, for what is behind it is loosened.
theorem spaced_reads (inserts : List (Text × Text)) (layouts : AllLayout inserts) (source : Text)
    (tokens : List Token) (reads : Reads source tokens) : Reads (spaced inserts source) tokens := by
  induction inserts generalizing source tokens with
  | nil => exact reads
  | cons places more ih =>
    obtain ⟨before, behind⟩ := places
    obtain ⟨⟨beforeLayout, behindLayout⟩, later⟩ := List.forall_mem_cons.mp layouts
    cases found : first? source with
    | none => simpa only [spaced, found] using reads
    | some parts =>
      obtain ⟨gap, token, left⟩ := parts
      have begins := first_begins source gap left token found
      obtain ⟨others, rfl, readsLeft⟩ := reads_first source gap left token tokens found reads
      simp only [spaced, found, List.append_assoc]
      apply reads_behind gap _ _ begins.passes
      apply reads_behind before _ _ (Token.layout_passes before beforeLayout)
      apply begins.reads
      · exact layout_loosens behind left _ behindLayout (spaced_loosens more later left)
      · apply reads_behind behind _ _ (Token.layout_passes behind behindLayout)
        exact ih later left others readsLeft

end TokenStream

theorem encode_bindings_unplaced (before : Entries) (bindings : List Binding) (progress : Progress) :
    encodeBindings before (bindings.map Binding.unplaced) progress =
      encodeBindings before bindings progress := by
  fun_induction encodeBindings before bindings progress with
  | case1 => rfl
  | case2 before progress item position tail ih => exact ih
  | case3 before name item position tail progress inProlog ih =>
    rw [List.map_cons, Binding.unplaced, encodeBindings, if_pos inProlog]
    exact ih
  | case4 before name item position tail progress kept last error failed =>
    rw [List.map_cons, Binding.unplaced, encodeBindings, if_neg kept]
    simp only [failed]
  | case5 before name item position tail progress kept next cell encoded error failed =>
    rw [List.map_cons, Binding.unplaced, encodeBindings, if_neg kept]
    simp only [encoded, failed]
  | case6 before name item position tail progress kept next cell encoded after inserted ih =>
    rw [List.map_cons, Binding.unplaced, encodeBindings, if_neg kept]
    simp only [encoded, inserted]
    exact ih

theorem Document.materialize_unplaced (document : Document) (depot : Depot) (home : Nat) :
    document.unplaced.materialize depot home = document.materialize depot home := by
  rw [materialize, materialize, unplaced, encode_bindings_unplaced]

section
open Outcome

variable (source other : Text) (stream likewise : TokenStream)
  (scanned : TokenStream.ofSource source = .ok stream) (scannedToo : TokenStream.ofSource other = .ok likewise)
  (same : likewise.tokens.map Located.token = stream.tokens.map Located.token)

include scanned scannedToo same

theorem Document.read_same_tokens (options : ParseOptions) :
    seen unplaced (read options other) = seen unplaced (read options source) := by
  have first := extend_unplaced options stream.stop none empty stream.tokens
  have second := extend_unplaced options likewise.stop none empty likewise.tokens
  rw [Parser.unplaced_same _ _ same] at second
  rw [read, read, scanned, scannedToo]
  exact seen_same _ _ _ second first

theorem Value.read_same_tokens : seen id (Value.read other) = seen id (Value.read source) := by
  have first := Parser.whole_unplaced stream.stop stream.tokens
  have second := Parser.whole_unplaced likewise.stop likewise.tokens
  rw [Parser.unplaced_same _ _ same] at second
  rw [Value.read, Value.read, scanned, scannedToo]
  exact seen_same _ _ _ second first

theorem materialize_same_tokens (options : ParseOptions) (depot : Depot) (home : Nat) :
    (materializeSource options other depot home).1 = (materializeSource options source depot home).1 ∧
      seen id (materializeSource options other depot home).2 =
        seen id (materializeSource options source depot home).2 := by
  have alike := Document.read_same_tokens source other stream likewise scanned scannedToo same options
  rw [materializeSource, materializeSource]
  cases first : Document.read options source with
  | error error =>
    cases second : Document.read options other with
    | error fault =>
      rw [first, second] at alike
      exact ⟨rfl, congrArg Except.error (Except.error.inj alike)⟩
    | ok found =>
      rw [first, second] at alike
      cases alike
  | ok document =>
    cases second : Document.read options other with
    | error fault =>
      rw [first, second] at alike
      cases alike
    | ok found =>
      rw [first, second] at alike
      have unplaced : found.unplaced = document.unplaced := Except.ok.inj alike
      dsimp only
      rw [← found.materialize_unplaced, unplaced, document.materialize_unplaced]
      exact ⟨rfl, rfl⟩

end

namespace TokenStream

open Outcome

theorem layout_ignored (source : Text) (stream : TokenStream) (scanned : ofSource source = .ok stream)
    (inserts : List (Text × Text)) (layouts : AllLayout inserts) :
    (∃ other, ofSource (spaced inserts source) = .ok other ∧
      other.tokens.map Located.token = stream.tokens.map Located.token) ∧
    (∀ options, seen Document.unplaced (Document.read options (spaced inserts source)) =
      seen Document.unplaced (Document.read options source)) ∧
    seen id (Value.read (spaced inserts source)) = seen id (Value.read source) ∧
    ∀ options depot home,
      (materializeSource options (spaced inserts source) depot home).1 =
        (materializeSource options source depot home).1 ∧
      seen id (materializeSource options (spaced inserts source) depot home).2 =
        seen id (materializeSource options source depot home).2 := by
  have reads := spaced_reads inserts layouts source _ (scan_reads .start source stream scanned)
  obtain ⟨other, scannedToo, same⟩ := reads .start
  exact ⟨⟨other, scannedToo, same⟩,
    Document.read_same_tokens source _ stream other scanned scannedToo same,
    Value.read_same_tokens source _ stream other scanned scannedToo same,
    materialize_same_tokens source _ stream other scanned scannedToo same⟩

def cramped : Text := "a:15e:[a,-3]".toList

def gaps : List (Text × Text) :=
  [([], "# e2\n".toList), ("\t".toList, []), ([], "//.5\n".toList), ("\r\n".toList, " ".toList)]

theorem gaps_layout : AllLayout gaps := by
  have exponent : Token.Layout "# e2\n".toList := .hash " e2".toList [] (by decide) .nil
  have fraction : Token.Layout "//.5\n".toList := .slashes ".5".toList [] (by decide) .nil
  have tab : Token.Layout "\t".toList := .blank '\t' [] rfl .nil
  have line : Token.Layout "\r\n".toList := .blank '\r' _ rfl (.blank '\n' [] rfl .nil)
  have blank : Token.Layout " ".toList := .blank ' ' [] rfl .nil
  simp only [AllLayout, gaps, List.forall_mem_cons]
  exact ⟨⟨.nil, exponent⟩, ⟨tab, .nil⟩, ⟨.nil, fraction⟩, ⟨line, blank⟩, by simp⟩

def crampedRead : Document :=
  ⟨[⟨some ['a'], ⟨false, .number ⟨.integer, "+15".toList⟩⟩, ⟨1, 1⟩⟩,
    ⟨some ['e'], ⟨false, .sequence [⟨false, .number ⟨.integer, "+15".toList⟩⟩,
      ⟨false, .number ⟨.integer, "-3".toList⟩⟩]⟩, ⟨1, 5⟩⟩], [], []⟩

theorem layout_ignored_cramped :
    ∃ stream, ofSource cramped = .ok stream ∧ AllLayout gaps ∧
      spaced gaps cramped = "a# e2\n\t:15//.5\n\r\ne :[a,-3]".toList ∧
      Document.read .strict cramped = .ok crampedRead ∧
      seen Document.unplaced (Document.read .strict (spaced gaps cramped)) = .ok crampedRead.unplaced := by
  have scanned : ofSource cramped =
      .ok ⟨[⟨.word ['a'], ⟨1, 1⟩⟩, ⟨.delimiter .colon, ⟨1, 2⟩⟩, ⟨.number "15".toList, ⟨1, 3⟩⟩,
        ⟨.word ['e'], ⟨1, 5⟩⟩, ⟨.delimiter .colon, ⟨1, 6⟩⟩, ⟨.delimiter .openBracket, ⟨1, 7⟩⟩,
        ⟨.word ['a'], ⟨1, 8⟩⟩, ⟨.delimiter .comma, ⟨1, 9⟩⟩, ⟨.number "-3".toList, ⟨1, 10⟩⟩,
        ⟨.delimiter .closeBracket, ⟨1, 12⟩⟩], ⟨1, 13⟩⟩ := by decide +kernel
  have wide : spaced gaps cramped = "a# e2\n\t:15//.5\n\r\ne :[a,-3]".toList := by decide
  have read : Document.read .strict cramped = .ok crampedRead := by decide +kernel
  have again := (layout_ignored cramped _ scanned gaps gaps_layout).2.1 .strict
  rw [read] at again
  exact ⟨_, scanned, gaps_layout, wide, read, again⟩

end TokenStream
end ParamStore

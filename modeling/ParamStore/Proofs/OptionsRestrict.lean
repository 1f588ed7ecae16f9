import ParamStore.Command
import ParamStore.Proofs.EarlierBindings
import ParamStore.Proofs.QuietReading

set_option autoImplicit false

namespace ParamStore
namespace Parser

def PrologFree (tokens : List Located) : Prop := ∀ located ∈ tokens, located.token ≠ .word beginProlog

theorem prolog_free_cons (first : Located) (rest : List Located) :
    PrologFree (first :: rest) ↔ first.token ≠ .word beginProlog ∧ PrologFree rest :=
  List.forall_mem_cons

theorem prolog_free_skip (first : Located) (rest : List Located)
    (other : first.token ≠ .word beginProlog) : PrologFree (first :: rest) ↔ PrologFree rest := by
  rw [prolog_free_cons]
  exact and_iff_right other

theorem prolog_free_word (word : Text) (position : Position) (rest : List Located)
    (other : word ≠ beginProlog) : PrologFree (⟨.word word, position⟩ :: rest) ↔ PrologFree rest :=
  prolog_free_skip _ _ (by simpa using other)

theorem prolog_free_version (tokens rest : List Located) (number : Option Nat)
    (read : version tokens = .ok (number, rest)) : PrologFree tokens ↔ PrologFree rest := by
  unfold version at read
  split at read
  · split at read
    · split at read <;> cases read
      · rename_i same
        simp [prolog_free_cons, same, show lastWord ≠ beginProlog by decide]
      · rfl
    · split at read
      · split at read <;> cases read
        simp [prolog_free_cons]
      · cases read
        rfl
    · cases read
      rfl
  · cases read
    rfl

theorem free_no_begin (word : Text) (free : isReserved word = false) : word ≠ beginProlog := by
  rintro rfl
  exact absurd free (by decide)

theorem prolog_free_name (first : Located) (key : Text) (named : name first = .ok key) :
    first.token ≠ .word beginProlog := by
  obtain ⟨word, free⟩ := name_word first key named
  rw [word]
  simpa using free_no_begin key free

theorem prolog_free_index (first : Located) (place : Nat) (numbered : index first = .ok place) :
    first.token ≠ .word beginProlog := by
  unfold index at numbered
  split at numbered
  · simp
  · cases numbered

theorem prolog_free_steps (stop : Position) (tokens rest : List Located) (inwards : List Segment)
    (read : steps stop tokens = .ok (inwards, rest)) : PrologFree tokens ↔ PrologFree rest := by
  fun_induction steps stop tokens generalizing inwards rest with
  | case1 => exact absurd read (unexpected_ne _ _ _ _)
  | case2 => cases read
  | case3 => cases read
  | case4 _ first _ key named more left found ih =>
    cases read
    rw [prolog_free_skip _ _ (by simp), prolog_free_skip _ _ (prolog_free_name first key named)]
    exact ih _ _ found
  | case5 => exact absurd read (unexpected_ne _ _ _ _)
  | case6 => cases read
  | case7 => cases read
  | case8 _ first place numbered _ _ more left found ih =>
    cases read
    rw [prolog_free_skip _ _ (by simp), prolog_free_skip _ _ (prolog_free_index first place numbered),
      prolog_free_skip _ _ (by simp)]
    exact ih _ _ found
  | case9 => exact absurd read (unexpected_ne _ _ _ _)
  | case10 =>
    cases read
    rfl

theorem prolog_free_external (tokens : List Located) :
    PrologFree tokens ↔ PrologFree (external tokens).2 := by
  unfold external
  split
  · exact prolog_free_skip _ _ (by simp)
  · rfl

theorem prolog_free_reference (stop : Position) (name : Text) (tokens rest : List Located)
    (found : Reference) (read : reference stop name tokens = .ok (found, rest)) :
    PrologFree tokens ↔ PrologFree rest := by
  rw [reference] at read
  split at read
  · cases read
  · rename_i number behind first
    split at read
    · cases read
    · rename_i inwards left second
      cases read
      rw [prolog_free_version _ _ _ first, prolog_free_steps _ _ _ _ second]
      exact prolog_free_external left

theorem prolog_free_comma (tokens : List Located) :
    PrologFree tokens ↔ PrologFree (skipComma tokens) := by
  unfold skipComma
  split
  · exact prolog_free_skip _ _ (by simp)
  · rfl

-- Values never open a prolog, so it is opened before a value exactly if it is opened behind it.
mutual
theorem derives_prolog_free (scope : Scope) (tokens left : List Located) (value : Value)
    (notes : Notes) (derived : Derives scope tokens value notes left) :
    PrologFree tokens ↔ PrologFree left := by
  match derived with
  | .number .. | .quoted .. => exact prolog_free_skip _ _ (by simp)
  | .table opened rest left found notes inside =>
    rw [prolog_free_skip _ _ (by simp)]
    exact entries_prolog_free scope rest left found notes inside
  | .sequence opened rest left found notes inside =>
    rw [prolog_free_skip _ _ (by simp)]
    exact elements_prolog_free scope rest left found notes inside
  | .complex opened rest left value read =>
    obtain ⟨re, im, x, y, p, q, r, s, rfl, _⟩ := (complex_iff _ _ _ _ _).mp read
    simp [prolog_free_cons]
  | .bool value position rest =>
    exact prolog_free_word _ position rest (by cases value <;> decide)
  | .nil position rest => exact prolog_free_word _ position rest (by decide)
  | .reference word position rest left found value notes free read resolved =>
    have other : word ≠ beginProlog := by
      rintro rfl
      simp at free
    rw [prolog_free_word word position rest other]
    exact prolog_free_reference scope.stop word rest left found read
theorem entries_prolog_free (scope : Scope) (tokens left : List Located)
    (found : List (Text × Flagged Value)) (notes : Notes)
    (derived : DerivesEntries scope tokens found notes left) :
    PrologFree tokens ↔ PrologFree left := by
  match derived with
  | .close position rest => exact prolog_free_skip _ _ (by simp)
  | .entry first key colon behind between last value found notes more named item others =>
    rw [prolog_free_skip _ _ (prolog_free_name first key named), prolog_free_skip _ _ (by simp),
      derives_prolog_free scope behind between value notes item, prolog_free_comma between]
    exact entries_prolog_free scope (skipComma between) last found more others
theorem elements_prolog_free (scope : Scope) (tokens left : List Located)
    (found : List (Flagged Value)) (notes : Notes)
    (derived : DerivesElements scope tokens found notes left) :
    PrologFree tokens ↔ PrologFree left := by
  match derived with
  | .close position rest => exact prolog_free_skip _ _ (by simp)
  | .last tokens position rest value notes item =>
    rw [derives_prolog_free scope tokens _ value notes item]
    exact prolog_free_skip _ _ (by simp)
  | .more tokens comma behind last value found notes more item others =>
    rw [derives_prolog_free scope tokens _ value notes item, prolog_free_skip _ _ (by simp)]
    exact elements_prolog_free scope behind last found more others
end

theorem binding_prolog_free (scope : Scope) (inProlog : Bool) (tokens : List Located)
    (step : Step Binding tokens) (done : binding scope inProlog tokens = .ok step) :
    PrologFree tokens ↔ PrologFree step.rest := by
  rcases binding_cases _ _ tokens step done with
    ⟨word, position, colon, rest, value, rfl, free, item, _⟩ | ⟨_, _, value, _, _, item, _⟩
  · rw [prolog_free_word word position _ (free_no_begin word free), prolog_free_skip _ _ (by simp)]
    exact derives_prolog_free scope rest _ value _ item
  · exact derives_prolog_free scope tokens _ value _ item

end Parser

namespace Document

open ParamStore.Parser

theorem extend_strict (options : ParseOptions) (strict : options.strictReferences = true)
    (stop : Position) (prolog : Option Position) (document last : Document) (tokens : List Located)
    (done : extend options stop prolog document tokens = .ok last) :
    last.diagnostics = document.diagnostics := by
  fun_induction extend options stop prolog document tokens with
  | case1 =>
    cases done
    rfl
  | case5 _ _ _ _ _ _ ih => exact ih done
  | case7 _ _ _ _ _ _ ih => exact ih done
  | case9 _ document _ _ _ _ _ binding notes _ _ bound ih =>
    rw [strict] at bound
    have quiet : notes.diagnostics = [] := binding_strict document _ stop _ _ bound
    rw [ih done, push, quiet, List.append_nil]
  | _ => cases done

theorem extend_closed (options : ParseOptions) (closed : options.allowProlog = false)
    (stop : Position) (prolog : Option Position) (document last : Document) (tokens : List Located)
    (done : extend options stop prolog document tokens = .ok last) : PrologFree tokens := by
  fun_induction extend options stop prolog document tokens with
  | case1 => exact fun _ member => by cases member
  | case5 _ _ _ _ allowed => exact absurd closed allowed
  | case7 _ _ _ _ _ noBegin ih =>
    exact (prolog_free_cons _ _).mpr ⟨noBegin, ih done⟩
  | case9 _ _ _ _ _ _ _ _ _ _ _ bound ih =>
    exact (binding_prolog_free _ _ _ _ bound).mpr (ih done)
  | _ => cases done

theorem extend_options (options other : ParseOptions) (stop : Position) (prolog : Option Position)
    (document last : Document) (tokens : List Located)
    (opens : options.allowProlog = false ∨ other.allowProlog = true ∨ PrologFree tokens)
    (quiet : other.strictReferences = options.strictReferences ∨
      last.diagnostics = document.diagnostics)
    (done : extend options stop prolog document tokens = .ok last) :
    extend other stop prolog document tokens = .ok last := by
  fun_induction extend options stop prolog document tokens with
  | case1 =>
    rw [extend]
    exact done
  | case5 prolog document position rest allowed nested ih =>
    have otherAllowed : ¬ other.allowProlog = false := by
      rcases opens with closed | open' | free
      · exact absurd closed allowed
      · simp [open']
      · exact absurd rfl ((prolog_free_cons _ _).mp free).1
    rw [extend, if_pos rfl, if_neg otherAllowed, if_neg nested]
    exact ih (opens.imp_right (Or.imp_right fun free => ((prolog_free_cons _ _).mp free).2)) quiet done
  | case7 prolog document position rest noBegin open' ih =>
    rw [extend, if_neg noBegin, if_pos rfl, if_neg open']
    exact ih (opens.imp_right (Or.imp_right fun free => ((prolog_free_cons _ _).mp free).2)) quiet done
  | case9 prolog document token position rest noBegin noEnd binding notes left shorter bound ih =>
    have opensBehind := opens.imp_right (Or.imp_right (binding_prolog_free _ _ _ _ bound).mp)
    rcases quiet with same | silent
    · rw [extend, if_neg noBegin, if_neg noEnd, same, bound]
      exact ih opensBehind (.inl same) done
    · -- The diagnostics of the binding are among those of the last document, which has no more.
      have starts := (extend_starts options stop prolog _ last left done).diagnostics
      have none : notes.diagnostics = [] := by
        have bounded := starts.length_le
        rw [silent] at bounded
        simp only [push, List.length_append] at bounded
        exact List.length_eq_zero_iff.mp (by omega)
      have found := binding_quiet document options.strictReferences other.strictReferences
        prolog.isSome stop _ _ none bound
      rw [extend_finds other stop prolog document _ rest left binding notes noBegin noEnd found]
      exact ih opensBehind (.inr (by rw [silent, push, none, List.append_nil])) done
  | _ => cases done

theorem read_extends (options : ParseOptions) (source : Text) (document : Document) :
    read options source = .ok document ↔ ∃ stream, TokenStream.ofSource source = .ok stream ∧
      extend options stream.stop none empty stream.tokens = .ok document :=
  Outcome.bind_ok _ _ _

theorem read_strict_iff (allowProlog : Bool) (source : Text) (document : Document) :
    read ⟨true, allowProlog⟩ source = .ok document ↔
      read ⟨false, allowProlog⟩ source = .ok document ∧ document.diagnostics = [] := by
  have opens : ∀ tokens, allowProlog = false ∨ allowProlog = true ∨ PrologFree tokens := by
    cases allowProlog <;> simp
  simp only [read_extends]
  constructor
  · rintro ⟨stream, scanned, done⟩
    have quiet := extend_strict ⟨true, allowProlog⟩ rfl _ _ _ _ _ done
    have lenient := extend_options ⟨true, allowProlog⟩ ⟨false, allowProlog⟩ _ _ _ _ _ (opens _)
      (.inr quiet) done
    exact ⟨⟨stream, scanned, lenient⟩, quiet⟩
  · rintro ⟨⟨stream, scanned, done⟩, quiet⟩
    have strict := extend_options ⟨false, allowProlog⟩ ⟨true, allowProlog⟩ _ _ _ _ _ (opens _)
      (.inr quiet) done
    exact ⟨stream, scanned, strict⟩

theorem read_closed_iff (strict : Bool) (source : Text) (document : Document) :
    read ⟨strict, false⟩ source = .ok document ↔ read ⟨strict, true⟩ source = .ok document ∧
      ∃ stream, TokenStream.ofSource source = .ok stream ∧ PrologFree stream.tokens := by
  simp only [read_extends]
  constructor
  · rintro ⟨stream, scanned, done⟩
    have free := extend_closed ⟨strict, false⟩ rfl _ _ _ _ _ done
    have wider := extend_options ⟨strict, false⟩ ⟨strict, true⟩ _ _ _ _ _ (.inl rfl) (.inl rfl) done
    exact ⟨⟨stream, scanned, wider⟩, stream, scanned, free⟩
  · rintro ⟨⟨stream, scanned, done⟩, again, rescanned, free⟩
    cases scanned.symm.trans rescanned
    have closed := extend_options ⟨strict, true⟩ ⟨strict, false⟩ _ _ _ _ _ (.inr (.inr free))
      (.inl rfl) done
    exact ⟨stream, scanned, closed⟩

end Document

namespace Command

theorem check_text_ok (file : String) (document : Document) :
    (∃ text, checkText file document = .ok text) ↔ document.diagnostics = [] := by
  unfold checkText
  cases document.diagnostics <;> simp

theorem check_outcome (config : Config) (file : String) (source : Text) :
    (∃ text, (check.run config file (.text source)).outcome = .ok text) ↔
      ∃ document, Document.read config.parse source = .ok document ∧ document.diagnostics = [] := by
  rw [run, readDocument, sourceText]
  cases found : Document.read config.parse source with
  | error error => simp [found, Except.mapError, bind, Except.bind]
  | ok document =>
    simp only [found, Except.mapError, bind, Except.bind, if_true, Except.ok.injEq, exists_eq_left']
    exact check_text_ok file document

end Command

namespace Document

open ParamStore.Parser

theorem read_restricted (source : Text) :
    (∀ allowProlog document, read ⟨true, allowProlog⟩ source = .ok document ↔
      read ⟨false, allowProlog⟩ source = .ok document ∧ document.diagnostics = []) ∧
    (∀ strict document, read ⟨strict, false⟩ source = .ok document ↔
      read ⟨strict, true⟩ source = .ok document ∧
        ∃ stream, TokenStream.ofSource source = .ok stream ∧ PrologFree stream.tokens) ∧
    ∀ allowProlog (config : Config) (file : String),
      (∃ text, (Command.check.run { config with parse := ⟨false, allowProlog⟩ } file
        (.text source)).outcome = .ok text) ↔
      ∃ document, read ⟨true, allowProlog⟩ source = .ok document := by
  refine ⟨fun allowProlog document => read_strict_iff allowProlog source document,
    fun strict document => read_closed_iff strict source document,
    fun allowProlog config file => ?_⟩
  rw [Command.check_outcome]
  simp only [read_strict_iff]

def openedSource : Text := "BEGIN_PROLOG END_PROLOG a: q".toList

def opened : Document := ⟨[⟨some ['a'], ⟨false, .nil⟩, ⟨1, 25⟩⟩], [⟨⟨1, 28⟩, ['q']⟩], []⟩

theorem read_restricted_opened :
    read ⟨false, true⟩ openedSource = .ok opened ∧
      (∀ document, read ⟨true, true⟩ openedSource ≠ .ok document) ∧
      (∀ document, read ⟨false, false⟩ openedSource ≠ .ok document) ∧
      ∀ text, (Command.check.run .standard "f" (.text openedSource)).outcome ≠ .ok text := by
  obtain ⟨strictness, closing, check⟩ := read_restricted openedSource
  have lenient : read ⟨false, true⟩ openedSource = .ok opened := by decide +kernel
  have scanned : TokenStream.ofSource openedSource =
      .ok ⟨[⟨.word beginProlog, ⟨1, 1⟩⟩, ⟨.word endProlog, ⟨1, 14⟩⟩, ⟨.word ['a'], ⟨1, 25⟩⟩,
        ⟨.delimiter .colon, ⟨1, 26⟩⟩, ⟨.word ['q'], ⟨1, 28⟩⟩], ⟨1, 29⟩⟩ := by decide +kernel
  have strict : ∀ document, read ⟨true, true⟩ openedSource ≠ .ok document := by
    intro document done
    obtain ⟨same, quiet⟩ := (strictness true document).mp done
    cases lenient.symm.trans same
    cases quiet
  refine ⟨lenient, strict, ?_, ?_⟩
  · intro document done
    obtain ⟨_, stream, rescanned, free⟩ := (closing false document).mp done
    cases scanned.symm.trans rescanned
    exact free _ (List.mem_cons_self ..) rfl
  · intro text done
    obtain ⟨document, accepted⟩ := (check true .standard "f").mp ⟨text, done⟩
    exact strict document accepted

end Document
end ParamStore

import ParamStore.Proofs.NotedPositions
import ParamStore.Proofs.ReferenceLookup

set_option autoImplicit false

namespace ParamStore

inductive Error.Reports (position : Position) : Error → Prop where
  | parse (fault : Fault) : Reports position (.parse position fault)
  | badNumber (literal : Text) (cause : Error) : Reports position (.badNumber position literal cause)
  | badLiteral (cause : Error) : Reports position (.badLiteral position cause)
  | cantFind (reference : Text) :
      Reports position (.cantFind (reference ++ [' ', '(', 'a', 't', ' '] ++ position.text ++ [')']))
  | typeMismatch (reference : Text) (cause : Mismatch) :
      Reports position (.typeMismatch (.inReference position reference cause))

def Outcome.Locates {α : Type} (positions : List Position) (outcome : Except Error α) : Prop :=
  ∀ error, outcome = .error error → ∃ position ∈ positions, error.Reports position

namespace Error

theorem reports_parse (position : Position) (error : Error) (reports : error.Reports position)
    (kind : error.kind = .parseError) : error.position? = some position := by
  cases reports with
  | parse => rfl
  | badNumber => rfl
  | badLiteral => rfl
  | cantFind => cases kind
  | typeMismatch => cases kind

end Error

namespace Outcome

variable {α β : Type}

theorem locates_ok (positions : List Position) (found : α) : Locates positions (.ok found) := nofun

theorem locates_error (positions : List Position) (position : Position) (error : Error)
    (reports : error.Reports position) (member : position ∈ positions) :
    Locates positions (.error error : Except Error α) := by
  rintro _ ⟨⟩
  exact ⟨position, member, reports⟩

theorem locates_more (positions more : List Position) (outcome : Except Error α)
    (locates : Locates positions outcome) (subset : positions ⊆ more) : Locates more outcome := by
  intro error failed
  obtain ⟨position, member, reports⟩ := locates error failed
  exact ⟨position, subset member, reports⟩

theorem locates_passed (positions more : List Position) (outcome : Except Error α) (error : Error)
    (locates : Locates positions outcome) (subset : positions ⊆ more) (failed : outcome = .error error) :
    Locates more (.error error : Except Error β) := by
  rintro _ ⟨⟩
  exact locates_more positions more outcome locates subset error failed

theorem locates_bind (positions : List Position) (first : Except Error α) (next : α → Except Error β)
    (locates : Locates positions first)
    (after : ∀ found, first = .ok found → Locates positions (next found)) :
    Locates positions (first >>= next) := by
  cases first with
  | error error => exact locates_passed positions _ _ error locates (List.Subset.refl _) rfl
  | ok found => exact after found rfl

end Outcome

open Outcome

namespace Reference

theorem locate_reports (position : Position) (text : Text) (segments : List Segment)
    (base : Flagged Value) (error : Error) (failed : Value.follow segments base = .error error) :
    (locate position text error).Reports position := by
  obtain ⟨_, segment, _, middle, _, _, stuck⟩ := Value.follow_error segments base error failed
  rcases Value.step_error segment middle.value error stuck with kind | kind
  · cases error with
    | cantFind => exact .cantFind text
    | _ => cases kind
  · cases error with
    | typeMismatch cause => exact .typeMismatch text cause
    | _ => cases kind

theorem resolve_locates (scope : Scope) (position : Position) (reference : Reference) :
    Locates [position] (reference.resolve scope position) := by
  unfold resolve
  split
  · rename_i base _
    split
    · exact locates_ok _ _
    · rename_i error failed
      exact locates_error _ position _ (locate_reports _ _ _ _ _ failed) (List.mem_singleton_self _)
  · split
    · exact locates_ok _ _
    · split
      · exact locates_error _ position _ (.parse _) (List.mem_singleton_self _)
      · exact locates_ok _ _

end Reference

namespace Parser

def reached (stop : Position) (tokens : List Located) : List Position := stop :: places tokens

theorem reached_suffix (stop : Position) (tokens rest : List Located) (suffix : rest <:+ tokens) :
    reached stop rest ⊆ reached stop tokens :=
  List.cons_subset_cons stop (suffix.map Located.position).subset

theorem reached_token (stop : Position) (first : Located) (rest : List Located) :
    [first.position] ⊆ reached stop (first :: rest) := by
  simp [reached, places]

theorem reached_opened (stop : Position) (first : Located) (rest : List Located) :
    first.position :: reached stop rest ⊆ reached stop (first :: rest) := by
  intro position member
  simp only [reached, places, List.map_cons, List.mem_cons] at member ⊢
  exact or_left_comm.mp member

theorem reached_behind (stop : Position) (tokens rest : List Located) {α : Type}
    (outcome : Except Error α) (suffix : rest <:+ tokens) (locates : Locates (reached stop rest) outcome) :
    Locates (reached stop tokens) outcome :=
  locates_more _ _ outcome locates (reached_suffix stop tokens rest suffix)

theorem unexpected_locates {α : Type} (stop : Position) (wanted : Expectation) (tokens : List Located) :
    Locates (reached stop tokens) (unexpected stop wanted tokens : Except Error α) := by
  cases tokens with
  | nil => exact locates_error _ stop _ (.parse _) (List.mem_cons_self ..)
  | cons first rest =>
    exact locates_error _ first.position _ (.parse _) (List.mem_cons_of_mem _ (List.mem_cons_self ..))

theorem name_locates (first : Located) : Locates [first.position] (name first) := by
  unfold name
  split
  · split
    · exact locates_error _ _ _ (.parse _) (List.mem_singleton_self _)
    · exact locates_ok _ _
  · exact locates_error _ _ _ (.parse _) (List.mem_singleton_self _)

theorem index_locates (first : Located) : Locates [first.position] (index first) := by
  unfold index
  split
  · split
    · split
      · exact locates_ok _ _
      · exact locates_error _ _ _ (.parse _) (List.mem_singleton_self _)
    · exact locates_error _ _ _ (.parse _) (List.mem_singleton_self _)
  · exact locates_error _ _ _ (.parse _) (List.mem_singleton_self _)

theorem version_locates (stop : Position) (tokens : List Located) :
    Locates (reached stop tokens) (version tokens) := by
  unfold version
  split
  · split
    · split <;> exact locates_ok _ _
    · split
      · split
        · exact locates_ok _ _
        · exact locates_error _ _ _ (.parse _) (List.mem_cons_of_mem _ (List.mem_cons_self ..))
      · exact locates_ok _ _
    · exact locates_ok _ _
  · exact locates_ok _ _

theorem steps_locates (stop : Position) (tokens : List Located) :
    Locates (reached stop tokens) (steps stop tokens) := by
  fun_induction steps stop tokens with
  | case1 => exact reached_behind stop _ [] _ (List.suffix_cons _ _) (unexpected_locates _ _ _)
  | case2 position first rest error failed =>
    have here := reached_token stop first rest
    exact locates_passed _ _ _ error (name_locates first)
      (List.Subset.trans here (reached_suffix stop _ _ (List.suffix_cons _ _))) failed
  | case3 position first rest key named error failed ih =>
    exact locates_passed _ _ _ error ih (reached_suffix stop _ rest ⟨[_, _], rfl⟩) failed
  | case4 => exact locates_ok _ _
  | case5 => exact reached_behind stop _ [] _ (List.suffix_cons _ _) (unexpected_locates _ _ _)
  | case6 position first rest error failed =>
    have here := reached_token stop first rest
    exact locates_passed _ _ _ error (index_locates first)
      (List.Subset.trans here (reached_suffix stop _ _ (List.suffix_cons _ _))) failed
  | case7 position first place numbered closing behind error failed ih =>
    exact locates_passed _ _ _ error ih (reached_suffix stop _ behind ⟨[_, _, _], rfl⟩) failed
  | case8 => exact locates_ok _ _
  | case9 position first place numbered other unclosed =>
    exact reached_behind stop _ other _ ⟨[_, _], rfl⟩ (unexpected_locates _ _ _)
  | case10 => exact locates_ok _ _

theorem reference_locates (stop : Position) (name : Text) (tokens : List Located) :
    Locates (reached stop tokens) (reference stop name tokens) := by
  rw [reference]
  split
  · rename_i error failed
    exact locates_passed _ _ _ error (version_locates stop tokens) (List.Subset.refl _) failed
  · rename_i number behind versioned
    split
    · rename_i error failed
      exact locates_passed _ _ _ error (steps_locates stop behind)
        (reached_suffix stop _ behind (version_suffix _ _ _ versioned)) failed
    · exact locates_ok _ _

theorem part_locates (stop : Position) (tokens : List Located) :
    Locates (reached stop tokens) (part stop tokens) := by
  unfold part
  split
  · split
    · exact locates_ok _ _
    · exact locates_error _ _ _ (.badNumber _ _) (List.mem_cons_of_mem _ (List.mem_cons_self ..))
  · exact unexpected_locates _ _ _

theorem expect_locates (stop : Position) (mark : Delimiter) (tokens : List Located) :
    Locates (reached stop tokens) (expect stop mark tokens) := by
  unfold expect
  split
  · exact unexpected_locates _ _ _
  · split
    · exact locates_ok _ _
    · exact unexpected_locates _ _ _

theorem expect_suffix (stop : Position) (mark : Delimiter) (tokens rest : List Located)
    (read : expect stop mark tokens = .ok rest) : rest <:+ tokens := by
  unfold expect at read
  split at read
  · exact absurd read (unexpected_ne _ _ _ _)
  · split at read
    · cases read
      exact List.suffix_cons _ _
    · exact absurd read (unexpected_ne _ _ _ _)

theorem complex_locates (stop opened : Position) (tokens : List Located) :
    Locates (opened :: reached stop tokens) (complex stop opened tokens) := by
  have inside (rest : List Located) (suffix : rest <:+ tokens) :
      reached stop rest ⊆ opened :: reached stop tokens :=
    List.subset_cons_of_subset _ (reached_suffix stop tokens rest suffix)
  rw [complex]
  refine locates_bind _ _ _ (locates_more _ _ _ (part_locates stop tokens) (inside _ (List.suffix_refl _)))
    fun re _ => ?_
  have second := List.tail_suffix tokens
  refine locates_bind _ _ _ (locates_more _ _ _ (expect_locates stop _ _) (inside _ second))
    fun behind comma => ?_
  have third := (expect_suffix _ _ _ _ comma).trans second
  refine locates_bind _ _ _ (locates_more _ _ _ (part_locates stop behind) (inside _ third)) fun im _ => ?_
  have fourth := (List.tail_suffix behind).trans third
  refine locates_bind _ _ _ (locates_more _ _ _ (expect_locates stop _ _) (inside _ fourth))
    fun rest _ => ?_
  split
  · exact locates_ok _ _
  · exact locates_error _ opened _ (.badLiteral _) (List.mem_cons_self ..)

theorem expression_suffix (scope : Scope) (tokens : List Located) (step : Step Value tokens)
    (read : expression scope tokens = .ok step) : step.rest <:+ tokens := by
  obtain ⟨used, split, _⟩ := derives_noted _ _ _ _ _ (derives_of_expression scope tokens step read)
  exact ⟨used, split.symm⟩

theorem word_locates (scope : Scope) (word : Text) (position : Position) (rest : List Located) :
    Locates (reached scope.stop (⟨.word word, position⟩ :: rest))
      (expression scope (⟨.word word, position⟩ :: rest)) := by
  have here := reached_token scope.stop ⟨.word word, position⟩ rest
  rw [expression]
  split
  · exact locates_ok _ _
  · split
    · exact locates_ok _ _
    · split
      · exact locates_ok _ _
      · split
        · exact locates_error _ position _ (.parse _) (here (List.mem_singleton_self _))
        · split
          · rename_i error failed
            exact locates_passed _ _ _ error (reference_locates scope.stop word rest)
              (reached_suffix scope.stop _ rest (List.suffix_cons _ _)) failed
          · rename_i found left read
            split
            · rename_i error failed
              exact locates_passed _ _ _ error (found.resolve_locates scope position) here failed
            · exact locates_ok _ _

-- Tables and arrays are also reported where they were opened, if the tokens end inside. The recursion is the
-- reader's own.
mutual
theorem expression_locates (scope : Scope) (tokens : List Located) :
    Locates (reached scope.stop tokens) (expression scope tokens) := by
  match tokens with
  | [] =>
    rw [expression]
    exact unexpected_locates _ _ _
  | ⟨.number literal, position⟩ :: rest =>
    rw [expression]
    split
    · exact locates_ok _ _
    · exact locates_error _ position _ (.badNumber _ _) (reached_token _ _ _ (List.mem_cons_self ..))
  | ⟨.quoted literal, position⟩ :: rest =>
    rw [expression]
    split
    · exact locates_ok _ _
    · exact locates_error _ position _ (.badLiteral _) (reached_token _ _ _ (List.mem_cons_self ..))
  | ⟨.delimiter .openBrace, opened⟩ :: rest =>
    have inside := entries_locates scope opened rest
    rw [expression]
    split
    · exact locates_ok _ _
    · rename_i error failed
      exact locates_passed _ _ _ error inside (reached_opened scope.stop ⟨_, opened⟩ rest) failed
  | ⟨.delimiter .openBracket, opened⟩ :: rest =>
    have inside := elements_locates scope opened rest
    rw [expression]
    split
    · exact locates_ok _ _
    · rename_i error failed
      exact locates_passed _ _ _ error inside (reached_opened scope.stop ⟨_, opened⟩ rest) failed
  | ⟨.delimiter .openParen, opened⟩ :: rest =>
    rw [expression]
    split
    · exact locates_ok _ _
    · rename_i error failed
      exact locates_passed _ _ _ error (complex_locates _ _ _)
        (reached_opened scope.stop ⟨_, opened⟩ rest) failed
  | ⟨.word word, position⟩ :: rest => exact word_locates scope word position rest
  | ⟨.delimiter .closeBrace, position⟩ :: rest | ⟨.delimiter .closeBracket, position⟩ :: rest
  | ⟨.delimiter .closeParen, position⟩ :: rest | ⟨.delimiter .colon, position⟩ :: rest
  | ⟨.delimiter .comma, position⟩ :: rest | ⟨.delimiter .dot, position⟩ :: rest
  | ⟨.deferred place, position⟩ :: rest =>
    rw [expression]
    · exact unexpected_locates _ _ _
    all_goals simp
termination_by (tokens.length, 0)
theorem entries_locates (scope : Scope) (opened : Position) (tokens : List Located) :
    Locates (opened :: reached scope.stop tokens) (entries scope opened tokens) := by
  match tokens with
  | [] =>
    rw [entries]
    exact locates_error _ opened _ (.parse _) (List.mem_cons_self ..)
  | first :: rest =>
    have inside (left : List Located) (suffix : left <:+ first :: rest) :
        reached scope.stop left ⊆ opened :: reached scope.stop (first :: rest) :=
      List.subset_cons_of_subset _ (reached_suffix scope.stop _ left suffix)
    by_cases closing : first.token = .delimiter .closeBrace
    · obtain ⟨token, position⟩ := first
      cases closing
      rw [entries]
      exact locates_ok _ _
    · rw [entries]
      · split
        · rename_i error failed
          have here := reached_token scope.stop first rest
          exact locates_passed _ _ _ error (name_locates first) (List.subset_cons_of_subset _ here) failed
        · split
          · rename_i colon behind
            have here := expression_locates scope behind
            cases read : expression scope behind with
            | error error =>
              exact locates_passed _ _ _ error here (inside behind ⟨[_, _], rfl⟩) read
            | ok item =>
              have others := entries_locates scope opened (skipComma item.rest)
              dsimp only
              split
              · rename_i error failed
                have far : skipComma item.rest <:+ first :: ⟨.delimiter .colon, colon⟩ :: behind :=
                  ((skip_comma_suffix _).trans (expression_suffix scope behind item read)).trans
                    ⟨[_, _], rfl⟩
                exact locates_passed _ _ _ error others
                  (List.cons_subset_cons opened (reached_suffix scope.stop _ _ far)) failed
              · exact locates_ok _ _
          · exact locates_more _ _ _ (unexpected_locates _ _ _) (inside rest (List.suffix_cons _ _))
      · intro position same
        cases same
        exact absurd rfl closing
termination_by (tokens.length, 1)
decreasing_by
  · have length := congrArg List.length ‹rest = _›
    apply Prod.Lex.left
    simp only [List.length_cons] at length ⊢
    omega
  · have length := congrArg List.length ‹rest = _›
    have bound := skip_comma_length item.rest
    have shorter := item.shorter
    apply Prod.Lex.left
    simp only [List.length_cons] at length ⊢
    omega
theorem elements_locates (scope : Scope) (opened : Position) (tokens : List Located) :
    Locates (opened :: reached scope.stop tokens) (elements scope opened tokens) := by
  match tokens with
  | [] =>
    rw [elements]
    exact locates_error _ opened _ (.parse _) (List.mem_cons_self ..)
  | first :: rest =>
    by_cases closing : first.token = .delimiter .closeBracket
    · obtain ⟨token, position⟩ := first
      cases closing
      rw [elements]
      exact locates_ok _ _
    · rw [elements]
      · have item := expression_locates scope (first :: rest)
        split
        · rename_i error failed
          exact locates_passed _ _ _ error item (List.subset_cons_self _ _) failed
        · rename_i value notes left shorter read
          have suffix := expression_suffix scope (first :: rest) _ read
          have inside := reached_suffix scope.stop _ left suffix
          split
          · exact locates_error _ opened _ (.parse _) (List.mem_cons_self ..)
          · exact locates_ok _ _
          · rename_i comma behind further
            have others := elements_locates scope opened behind
            split
            · rename_i error failed
              have far := (List.suffix_cons _ _).trans suffix
              exact locates_passed _ _ _ error others
                (List.cons_subset_cons opened (reached_suffix scope.stop _ behind far)) failed
            · exact locates_ok _ _
          · rename_i token position behind _ _ _
            exact locates_error _ position _ (.parse _)
              (List.mem_cons_of_mem _ (inside (reached_token _ _ _ (List.mem_cons_self ..))))
      · intro position same
        cases same
        exact absurd rfl closing
termination_by (tokens.length, 1)
decreasing_by
  · exact Prod.Lex.right _ Nat.zero_lt_one
  · apply Prod.Lex.left
    exact Nat.lt_of_succ_lt shorter
end

theorem binding_locates (scope : Scope) (inProlog : Bool) (tokens : List Located) :
    Locates (reached scope.stop tokens) (binding scope inProlog tokens) := by
  unfold binding
  split
  · rename_i word position colon rest
    split
    · exact locates_error _ position _ (.parse _) (reached_token _ _ _ (List.mem_cons_self ..))
    · have item := expression_locates scope rest
      split
      · rename_i error failed
        exact locates_passed _ _ _ error item (reached_suffix scope.stop _ rest ⟨[_, _], rfl⟩) failed
      · exact locates_ok _ _
  · exact unexpected_locates _ _ _
  · rename_i token position rest _
    have item := expression_locates scope (⟨token, position⟩ :: rest)
    split
    · rename_i error failed
      exact locates_passed _ _ _ error item (List.Subset.refl _) failed
    · exact locates_ok _ _

end Parser

namespace Document

open ParamStore.Parser

theorem extend_locates (options : ParseOptions) (stop : Position) (prolog : Option Position)
    (document : Document) (tokens : List Located) :
    Locates (prolog.toList ++ reached stop tokens) (extend options stop prolog document tokens) := by
  fun_induction extend options stop prolog document tokens with
  | case1 => exact locates_ok _ _
  | case2 document opened => exact locates_error _ opened _ (.parse _) (List.mem_cons_self ..)
  | case3 prolog document position rest disabled =>
    exact locates_error _ position _ (.parse _)
      (List.mem_append_right _ (reached_token stop _ _ (List.mem_cons_self ..)))
  | case4 prolog document position rest enabled nested =>
    exact locates_error _ position _ (.parse _)
      (List.mem_append_right _ (reached_token stop _ _ (List.mem_cons_self ..)))
  | case5 prolog document position rest enabled closed ih =>
    exact locates_more _ _ _ ih
      (List.subset_append_of_subset_right _ (reached_opened stop ⟨_, position⟩ rest))
  | case6 prolog document position rest closed noBegin =>
    exact locates_error _ position _ (.parse _)
      (List.mem_append_right _ (reached_token stop _ _ (List.mem_cons_self ..)))
  | case7 prolog document position rest opened noBegin ih =>
    exact locates_more _ _ _ ih
      (List.subset_append_of_subset_right _ (reached_suffix stop _ rest (List.suffix_cons _ _)))
  | case8 prolog document token position rest noBegin noEnd error failed =>
    exact locates_passed _ _ _ error (binding_locates _ _ _) (List.subset_append_right _ _) failed
  | case9 prolog document token position rest noBegin noEnd made notes left shorter bound ih =>
    obtain ⟨used, split, _⟩ := binding_noted _ _ _ _ bound
    have further := reached_suffix stop _ left ⟨used, split.symm⟩
    exact locates_more _ _ _ ih (List.append_subset.mpr
      ⟨List.subset_append_left _ _, List.subset_append_of_subset_right _ further⟩)

end Document
end ParamStore

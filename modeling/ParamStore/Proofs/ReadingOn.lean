import ParamStore.Proofs.Grammar
import ParamStore.Proofs.TokensBehind

set_option autoImplicit false

namespace ParamStore
namespace Parser

-- Reading looks ahead past what it takes. Every such look comes out the same whether the tokens end
-- or go on with a word.
inductive Fresh : List Located → Prop where
  | none : Fresh []
  | word (word : Text) (position : Position) (rest : List Located) :
      Fresh (⟨.word word, position⟩ :: rest)

def Decided (tokens : List Located) : Prop :=
  ∀ opened rest, tokens = ⟨.delimiter .openParen, opened⟩ :: rest → 2 ≤ rest.length

theorem decided_of_head (first : Located) (rest : List Located)
    (unopened : first.token ≠ .delimiter .openParen) : Decided (first :: rest) := by
  rintro opened behind same
  cases same
  exact absurd rfl unopened

theorem version_plain (first : Located) (rest : List Located)
    (unopened : first.token ≠ .delimiter .openParen) :
    version (first :: rest) = .ok (none, first :: rest) := by
  unfold version
  split
  · rename_i same
    cases same
    exact absurd rfl unopened
  · rfl

theorem version_fresh (more : List Located) (fresh : Fresh more) :
    version more = .ok (none, more) := by
  cases fresh with
  | none => rfl
  | word => exact version_plain _ _ nofun

theorem version_three (first second third : Located) (rest more : List Located) :
    version (first :: second :: third :: (rest ++ more)) =
      (version (first :: second :: third :: rest)).map fun found => (found.1, found.2 ++ more) := by
  unfold version
  split
  · rename_i opened inner _ _ left same
    cases same
    simp only
    split
    · split <;> rfl
    · split
      · split <;> rfl
      · rfl
    · rfl
  · rename_i other
    split
    · rename_i same
      cases same
      exact absurd rfl (other _ _ _ _ _)
    · rfl

theorem version_behind (tokens rest more : List Located) (number : Option Nat)
    (decided : Decided tokens) (fresh : Fresh more) (read : version tokens = .ok (number, rest)) :
    version (tokens ++ more) = .ok (number, rest ++ more) := by
  cases tokens with
  | nil =>
    cases read
    exact version_fresh more fresh
  | cons first tail =>
    by_cases opening : first.token = .delimiter .openParen
    · obtain ⟨token, opened⟩ := first
      cases opening
      match tail, decided opened tail rfl with
      | second :: third :: behind, _ =>
        have same := version_three ⟨.delimiter .openParen, opened⟩ second third behind more
        rw [read] at same
        exact same
    · rw [version_plain first tail opening] at read
      cases read
      exact version_plain first (tail ++ more) opening

theorem steps_done (stop : Position) (tokens : List Located)
    (noKey : ∀ position rest, tokens ≠ ⟨.delimiter .dot, position⟩ :: rest)
    (noIndex : ∀ position rest, tokens ≠ ⟨.delimiter .openBracket, position⟩ :: rest) :
    steps stop tokens = .ok ([], tokens) := by
  unfold steps
  split
  · exact absurd rfl (noKey _ _)
  · exact absurd rfl (noKey _ _)
  · exact absurd rfl (noIndex _ _)
  · exact absurd rfl (noIndex _ _)
  · rfl

theorem steps_behind (stop other : Position) (tokens left more : List Located)
    (inwards : List Segment) (fresh : Fresh more) (read : steps stop tokens = .ok (inwards, left)) :
    steps other (tokens ++ more) = .ok (inwards, left ++ more) := by
  fun_induction steps stop tokens generalizing inwards left with
  | case1 => exact absurd read (unexpected_ne _ _ _ _)
  | case2 => cases read
  | case3 => cases read
  | case4 position first rest key named further remaining found ih =>
    cases read
    simp only [List.cons_append]
    rw [steps]
    simp only [named, ih _ _ found]
  | case5 => exact absurd read (unexpected_ne _ _ _ _)
  | case6 => cases read
  | case7 => cases read
  | case8 position first place numbered closed behind further remaining found ih =>
    cases read
    simp only [List.cons_append]
    rw [steps]
    simp only [numbered, ih _ _ found]
  | case9 => exact absurd read (unexpected_ne _ _ _ _)
  | case10 tokens lastKey key lastIndex index =>
    cases read
    apply steps_done
    · rintro position rest same
      cases tokens with
      | nil => cases fresh <;> cases same
      | cons first tail =>
        cases same
        cases tail with
        | nil => exact lastKey _ rfl
        | cons second behind => exact key _ _ _ rfl
    · rintro position rest same
      cases tokens with
      | nil => cases fresh <;> cases same
      | cons first tail =>
        cases same
        cases tail with
        | nil => exact lastIndex _ rfl
        | cons second behind => exact index _ _ _ rfl

theorem external_behind (tokens more : List Located) (fresh : Fresh more) :
    external (tokens ++ more) = ((external tokens).1, (external tokens).2 ++ more) := by
  cases tokens with
  | nil => cases fresh <;> rfl
  | cons first rest =>
    obtain ⟨token, position⟩ := first
    cases token <;> rfl

theorem reference_behind (stop other : Position) (name : Text) (tokens left more : List Located)
    (found : Reference) (decided : Decided tokens) (fresh : Fresh more)
    (read : reference stop name tokens = .ok (found, left)) :
    reference other name (tokens ++ more) = .ok (found, left ++ more) := by
  rw [reference] at read
  split at read
  · cases read
  · rename_i number behind versioned
    split at read
    · cases read
    · rename_i inwards remaining stepped
      cases read
      rw [reference, version_behind tokens behind more number decided fresh versioned]
      simp only [steps_behind stop other behind remaining more inwards fresh stepped,
        external_behind remaining more fresh]

theorem reference_decided (stop : Position) (name : Text) (tokens left : List Located)
    (found : Reference) (decided : Decided left)
    (read : reference stop name tokens = .ok (found, left)) : Decided tokens := by
  rintro opened rest rfl
  match rest with
  | _ :: _ :: _ => simp only [List.length_cons]; omega
  | [] | [_] =>
    cases read
    exact decided opened _ rfl

theorem skip_comma_behind (tokens more : List Located) (nonempty : tokens ≠ []) :
    skipComma (tokens ++ more) = skipComma tokens ++ more := by
  cases tokens with
  | nil => exact absurd rfl nonempty
  | cons first rest =>
    obtain ⟨token, position⟩ := first
    unfold skipComma
    split
    · rename_i same
      cases same
      rfl
    · rename_i other
      split
      · rename_i same
        cases same
        exact absurd rfl (other _ _)
      · rfl

theorem entries_decided (scope : Scope) (left last : List Located)
    (found : List (Text × Flagged Value)) (notes : Notes)
    (derived : DerivesEntries scope (skipComma left) found notes last) :
    left ≠ [] ∧ Decided left := by
  constructor
  · rintro rfl
    cases derived
  · rintro opened rest rfl
    cases derived with
    | entry _ key _ _ _ _ _ _ _ _ named => cases (name_word _ key named).1

mutual
theorem derives_behind (document : Document) (strict : Bool) (stop other : Position)
    (tokens left more : List Located) (value : Value) (notes : Notes) (decided : Decided left)
    (fresh : Fresh more) (derived : Derives ⟨document, strict, stop⟩ tokens value notes left) :
    Derives ⟨document, strict, other⟩ (tokens ++ more) value notes (left ++ more) := by
  match derived with
  | .number literal position rest number made => exact .number literal position _ number made
  | .quoted literal position rest value made => exact .quoted literal position _ value made
  | .table opened rest left found notes inside =>
    exact .table opened _ _ found notes
      (entries_behind document strict stop other rest left more found notes decided fresh inside)
  | .sequence opened rest left found notes inside =>
    exact .sequence opened _ _ found notes
      (elements_behind document strict stop other rest left more found notes decided fresh inside)
  | .complex opened rest left value read =>
    refine .complex opened _ _ value ?_
    obtain ⟨re, im, x, y, p, q, r, s, rfl, parts⟩ := (complex_iff _ _ _ _ _).mp read
    exact (complex_iff _ _ _ _ _).mpr ⟨re, im, x, y, p, q, r, s, rfl, parts⟩
  | .bool value position rest => exact .bool value position _
  | .nil position rest => exact .nil position _
  | .reference word position rest left found value notes free read resolved =>
    have open' := reference_decided stop word rest left found decided read
    exact .reference word position _ _ found value notes free
      (reference_behind stop other word rest left more found open' fresh read) resolved
theorem entries_behind (document : Document) (strict : Bool) (stop other : Position)
    (tokens left more : List Located) (found : List (Text × Flagged Value)) (notes : Notes)
    (decided : Decided left) (fresh : Fresh more)
    (derived : DerivesEntries ⟨document, strict, stop⟩ tokens found notes left) :
    DerivesEntries ⟨document, strict, other⟩ (tokens ++ more) found notes (left ++ more) := by
  match derived with
  | .close position rest => exact .close position _
  | .entry first key colon behind between last value found notes others named item following =>
    obtain ⟨nonempty, open'⟩ := entries_decided _ between last found others following
    have itemLater :=
      derives_behind document strict stop other behind between more value notes open' fresh item
    have later := entries_behind document strict stop other (skipComma between) last more found
      others decided fresh following
    rw [← skip_comma_behind between more nonempty] at later
    exact .entry first key colon _ _ _ value found notes others named itemLater later
theorem elements_behind (document : Document) (strict : Bool) (stop other : Position)
    (tokens left more : List Located) (found : List (Flagged Value)) (notes : Notes)
    (decided : Decided left) (fresh : Fresh more)
    (derived : DerivesElements ⟨document, strict, stop⟩ tokens found notes left) :
    DerivesElements ⟨document, strict, other⟩ (tokens ++ more) found notes (left ++ more) := by
  match derived with
  | .close position rest => exact .close position _
  | .last tokens position rest value notes item =>
    have open' : Decided (⟨.delimiter .closeBracket, position⟩ :: rest) :=
      decided_of_head _ rest (by simp)
    exact .last _ position _ value notes
      (derives_behind document strict stop other tokens _ more value notes open' fresh item)
  | .more tokens comma behind last value found notes others item following =>
    have open' : Decided (⟨.delimiter .comma, comma⟩ :: behind) :=
      decided_of_head _ behind (by simp)
    exact .more _ comma _ _ value found notes others
      (derives_behind document strict stop other tokens _ more value notes open' fresh item)
      (elements_behind document strict stop other behind last more found others decided fresh
        following)
end

def Named (tokens : List Located) : Prop :=
  ∃ word position colon rest, tokens = ⟨.word word, position⟩ :: ⟨.delimiter .colon, colon⟩ :: rest

theorem binding_named (scope : Scope) (inProlog : Bool) (word : Text) (position colon : Position)
    (rest left : List Located) (value : Value) (notes : Notes) (free : isReserved word = false)
    (item : Derives scope rest value notes left) :
    Finds (binding scope inProlog (⟨.word word, position⟩ :: ⟨.delimiter .colon, colon⟩ :: rest))
      ⟨some word, ⟨inProlog, value⟩, position⟩ notes left := by
  obtain ⟨shorter, read⟩ := expression_finds scope rest left value notes item
  simp only [binding, free, read]
  exact ⟨_, rfl⟩

theorem binding_bare (scope : Scope) (inProlog : Bool) (first : Located) (rest left : List Located)
    (value : Value) (notes : Notes) (bare : ¬ Named (first :: rest))
    (item : Derives scope (first :: rest) value notes left) :
    Finds (binding scope inProlog (first :: rest)) ⟨none, ⟨inProlog, value⟩, first.position⟩ notes
      left := by
  obtain ⟨shorter, read⟩ := expression_finds scope (first :: rest) left value notes item
  obtain ⟨token, position⟩ := first
  rw [binding]
  · simp only [read]
    exact ⟨_, rfl⟩
  · rintro word colon behind rfl rfl
    exact bare ⟨word, position, colon, behind, rfl⟩

theorem binding_cases (scope : Scope) (inProlog : Bool) (tokens : List Located)
    (step : Step Binding tokens) (done : binding scope inProlog tokens = .ok step) :
    (∃ word position colon rest value,
      tokens = ⟨.word word, position⟩ :: ⟨.delimiter .colon, colon⟩ :: rest ∧
      isReserved word = false ∧ Derives scope rest value step.notes step.rest ∧
      step.value = ⟨some word, ⟨inProlog, value⟩, position⟩) ∨
    ∃ first rest value, tokens = first :: rest ∧ ¬ Named tokens ∧
      Derives scope tokens value step.notes step.rest ∧
      step.value = ⟨none, ⟨inProlog, value⟩, first.position⟩ := by
  unfold binding at done
  split at done
  · rename_i word position colon rest
    split at done
    · cases done
    · rename_i free
      cases read : expression scope rest with
      | error error => simp [read] at done
      | ok item =>
        have derived := derives_of_expression scope rest item read
        simp only [read, Except.ok.injEq] at done
        subst done
        exact .inl ⟨word, position, colon, rest, item.value, rfl, by simpa using free, derived, rfl⟩
  · exact absurd done (unexpected_ne _ _ _ _)
  · rename_i token position rest bare
    cases read : expression scope (⟨token, position⟩ :: rest) with
    | error error => simp [read] at done
    | ok item =>
      have derived := derives_of_expression scope _ item read
      simp only [read, Except.ok.injEq] at done
      subst done
      refine .inr ⟨_, rest, item.value, rfl, ?_, derived, rfl⟩
      rintro ⟨word, place, colon, behind, same⟩
      cases same
      exact bare _ _ _ rfl rfl

theorem binding_behind (document : Document) (strict inProlog : Bool) (stop other : Position)
    (tokens more : List Located) (step : Step Binding tokens) (decided : Decided step.rest)
    (fresh : Fresh more) (done : binding ⟨document, strict, stop⟩ inProlog tokens = .ok step) :
    Finds (binding ⟨document, strict, other⟩ inProlog (tokens ++ more)) step.value step.notes
      (step.rest ++ more) := by
  rcases binding_cases _ _ tokens step done with
    ⟨word, position, colon, rest, value, rfl, free, item, made⟩ |
    ⟨first, rest, value, rfl, unnamed, item, made⟩
  · rw [made]
    exact binding_named _ _ word position colon _ _ value _ free
      (derives_behind document strict stop other rest _ more value _ decided fresh item)
  · rw [made]
    refine binding_bare _ _ first _ _ value _ ?_
      (derives_behind document strict stop other _ _ more value _ decided fresh item)
    rintro ⟨word, position, colon, behind, same⟩
    cases rest with
    | nil => cases fresh <;> cases same
    | cons second tail =>
      cases same
      exact unnamed ⟨word, position, colon, tail, rfl⟩

end Parser

namespace Document

open ParamStore.Parser

theorem extend_finds (options : ParseOptions) (stop : Position) (prolog : Option Position)
    (document : Document) (first : Located) (rest left : List Located) (made : Binding)
    (notes : Notes) (noBegin : first.token ≠ .word beginProlog)
    (noEnd : first.token ≠ .word endProlog)
    (found : Finds (binding ⟨document, options.strictReferences, stop⟩ prolog.isSome (first :: rest))
      made notes left) :
    extend options stop prolog document (first :: rest) =
      extend options stop prolog (document.push made notes) left := by
  obtain ⟨shorter, read⟩ := found
  obtain ⟨token, position⟩ := first
  rw [extend, if_neg noBegin, if_neg noEnd, read]

-- Tokens that start with a parenthesis make a document only with a complex number there.
theorem extend_decided (options : ParseOptions) (stop : Position) (prolog : Option Position)
    (document last : Document) (tokens : List Located)
    (done : extend options stop prolog document tokens = .ok last) : Decided tokens := by
  rintro opened rest rfl
  rw [extend, if_neg (by simp), if_neg (by simp)] at done
  split at done
  · cases done
  · rename_i bound
    rcases binding_cases _ _ _ _ bound with
      ⟨word, position, colon, behind, value, same, _⟩ | ⟨first, behind, value, same, _, item, _⟩
    · cases same
    · cases item with
      | complex _ _ left value read =>
        obtain ⟨re, im, x, y, p, q, r, s, parts, _⟩ := (complex_iff _ _ _ _ _).mp read
        rw [parts]
        simp only [List.length_cons]
        omega

theorem extend_behind (options : ParseOptions) (stop other : Position) (prolog : Option Position)
    (document last : Document) (tokens more : List Located) (fresh : Fresh more)
    (done : extend options stop prolog document tokens = .ok last) :
    extend options other prolog document (tokens ++ more) =
      extend options other none last more := by
  fun_induction extend options stop prolog document tokens with
  | case1 document =>
    cases done
    rfl
  | case2 => cases done
  | case3 => cases done
  | case4 => cases done
  | case5 prolog document position rest allowed nested ih =>
    rw [List.cons_append, extend, if_pos rfl, if_neg allowed, if_neg nested]
    exact ih done
  | case6 => cases done
  | case7 prolog document position rest open' noBegin ih =>
    rw [List.cons_append, extend, if_neg noBegin, if_pos rfl, if_neg open']
    exact ih done
  | case8 => cases done
  | case9 prolog document token position rest noBegin noEnd binding notes left shorter bound ih =>
    have decided := extend_decided options stop prolog _ last left done
    have found := binding_behind document options.strictReferences prolog.isSome stop other _ more _
      decided fresh bound
    exact (extend_finds _ _ _ _ _ _ _ _ _ noBegin noEnd found).trans (ih done)

end Document
end ParamStore

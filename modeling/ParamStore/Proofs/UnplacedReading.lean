import ParamStore.Proofs.ReadingOn

set_option autoImplicit false

namespace ParamStore

def Located.unplaced (located : Located) : Located := ⟨located.token, .start⟩

def Diagnostic.unplaced (diagnostic : Diagnostic) : Diagnostic := ⟨.start, diagnostic.reference⟩

def DeferredReference.unplaced (deferred : DeferredReference) : DeferredReference :=
  ⟨deferred.reference, deferred.place, .start⟩

def Notes.unplaced (notes : Notes) : Notes :=
  ⟨notes.diagnostics.map Diagnostic.unplaced, notes.deferred.map DeferredReference.unplaced⟩

def Binding.unplaced (binding : Binding) : Binding := ⟨binding.name, binding.item, .start⟩

def Document.unplaced (document : Document) : Document :=
  ⟨document.bindings.map Binding.unplaced, document.diagnostics.map Diagnostic.unplaced,
    document.deferred.map DeferredReference.unplaced⟩

def Scope.unplaced (scope : Scope) : Scope := ⟨scope.document.unplaced, scope.strict, .start⟩

-- The second outcome is the first without positions: its image, or an error of the same kind.
inductive Outcome.Unplaces {α β : Type} (image : α → β) : Except Error α → Except Error β → Prop where
  | ok (found : α) : Unplaces image (.ok found) (.ok (image found))
  | error (first second : Error) (same : second.kind = first.kind) :
      Unplaces image (.error first) (.error second)

namespace Outcome

variable {α β : Type} {image : α → β}

theorem unplaces_ok (found : α) (second : Except Error β) (unplaces : Unplaces image (.ok found) second) :
    second = .ok (image found) := by
  cases unplaces
  rfl

theorem unplaces_error (first : Error) (second : Except Error β)
    (unplaces : Unplaces image (.error first) second) :
    ∃ other, second = .error other ∧ other.kind = first.kind := by
  cases unplaces with
  | error _ other same => exact ⟨other, rfl, same⟩

theorem unplaces_bind {γ δ : Type} {first : Except Error α} {second : Except Error β}
    (unplaces : Unplaces image first second) (last : γ → δ) (next : α → Except Error γ)
    (other : β → Except Error δ) (after : ∀ found, Unplaces last (next found) (other (image found))) :
    Unplaces last (first >>= next) (second >>= other) := by
  cases unplaces with
  | ok found => exact after found
  | error _ _ same => exact .error _ _ same

def seen (image : α → β) (outcome : Except Error α) : Except Error.Kind β :=
  (outcome.map image).mapError Error.kind

theorem unplaces_seen (first : Except Error α) (second : Except Error β)
    (unplaces : Unplaces image first second) :
    seen image first = second.mapError Error.kind := by
  cases unplaces with
  | ok found => rfl
  | error _ _ same => exact congrArg Except.error same.symm

theorem seen_same (first other : Except Error α) (second : Except Error β)
    (unplaces : Unplaces image first second) (unplacesToo : Unplaces image other second) :
    seen image first = seen image other :=
  (unplaces_seen first second unplaces).trans (unplaces_seen other second unplacesToo).symm

end Outcome

open Outcome

theorem Notes.unplaced_append (first second : Notes) :
    (first ++ second).unplaced = first.unplaced ++ second.unplaced := by
  simp only [unplaced, HAppend.hAppend, Append.append, append]
  simp

theorem Document.versions_unplaced (document : Document) (name : Text) :
    document.unplaced.versions name = document.versions name := by
  simp only [versions, unplaced, List.filter_map, List.map_map]
  rfl

namespace Reference

theorem base_unplaced (document : Document) (reference : Reference) :
    reference.base? document.unplaced = reference.base? document := by
  simp only [base?, Document.lookup, Document.lookupVersion, Document.versions_unplaced]

theorem deferred_unplaced (position : Position) (reference : Reference) :
    (reference.deferredNotes position).unplaced = reference.deferredNotes .start := by
  unfold deferredNotes
  cases reference.place <;> rfl

theorem resolve_unplaced (scope : Scope) (position : Position) (reference : Reference) :
    Unplaces (fun found => (found.1, found.2.unplaced)) (reference.resolve scope position)
      (reference.resolve scope.unplaced .start) := by
  obtain ⟨document, strict, stop⟩ := scope
  simp only [resolve, Scope.unplaced, base_unplaced]
  cases reference.base? document with
  | some base =>
    dsimp only
    cases Value.follow reference.steps base with
    | ok item =>
      simp only [← deferred_unplaced position reference]
      exact .ok (item.value, reference.deferredNotes position)
    | error error => exact .error _ _ (by rw [locate_kind, locate_kind])
  | none =>
    dsimp only
    rw [← deferred_unplaced position reference]
    cases reference.place.isSome with
    | true => exact .ok (Value.nil, reference.deferredNotes position)
    | false =>
      rw [if_neg Bool.false_ne_true, if_neg Bool.false_ne_true]
      cases strict with
      | true => exact .error _ _ rfl
      | false => exact .ok (Value.nil, (⟨[⟨position, reference.text⟩], []⟩ : Notes))

end Reference

namespace Parser

def unplacedAll (tokens : List Located) : List Located := tokens.map Located.unplaced

theorem unplaced_cons (first : Located) (rest : List Located) :
    unplacedAll (first :: rest) = first.unplaced :: unplacedAll rest := rfl

theorem unplaced_token (token : Token) (position : Position) (rest : List Located) :
    unplacedAll (⟨token, position⟩ :: rest) = ⟨token, .start⟩ :: unplacedAll rest := rfl

theorem unplaced_same (tokens others : List Located)
    (same : tokens.map Located.token = others.map Located.token) :
    unplacedAll tokens = unplacedAll others := by
  have labelled := congrArg (List.map fun token => (⟨token, .start⟩ : Located)) same
  rwa [List.map_map, List.map_map] at labelled

def unplacedRest {α : Type} (found : α × List Located) : α × List Located :=
  (found.1, unplacedAll found.2)

inductive Follows {α : Type} (image : α → α) {tokens others : List Located} :
    Except Error (Step α tokens) → Except Error (Step α others) → Prop where
  | ok (value : α) (notes : Notes) (rest : List Located) (shorter : rest.length < tokens.length)
      (shorterToo : (unplacedAll rest).length < others.length) :
      Follows image (.ok ⟨value, notes, rest, shorter⟩)
        (.ok ⟨image value, notes.unplaced, unplacedAll rest, shorterToo⟩)
  | error (first second : Error) (same : second.kind = first.kind) :
      Follows image (.error first) (.error second)

theorem follows_ok {α : Type} {tokens others : List Located} (image : α → α) (step : Step α tokens)
    (second : Except Error (Step α others)) (follows : Follows image (.ok step) second) :
    ∃ shorter, second =
      .ok ⟨image step.value, step.notes.unplaced, unplacedAll step.rest, shorter⟩ := by
  cases follows with
  | ok _ _ _ _ shorter => exact ⟨shorter, rfl⟩

theorem follows_error {α : Type} {tokens others : List Located} (image : α → α) (first : Error)
    (second : Except Error (Step α others))
    (follows : Follows image (.error first : Except Error (Step α tokens)) second) :
    ∃ other, second = .error other ∧ other.kind = first.kind := by
  cases follows with
  | error _ other same => exact ⟨other, rfl, same⟩

theorem unexpected_follows {α : Type} (image : α → α) (tokens others : List Located)
    (stop other : Position) (wanted : Expectation) (left behind : List Located) :
    Follows image (unexpected stop wanted left : Except Error (Step α tokens))
      (unexpected other wanted behind : Except Error (Step α others)) := by
  cases left <;> cases behind <;> exact .error _ _ rfl

theorem unexpected_unplaced {α β : Type} (image : α → β) (stop other : Position) (wanted : Expectation)
    (tokens others : List Located) :
    Unplaces image (unexpected stop wanted tokens) (unexpected other wanted others) := by
  cases tokens <;> cases others <;> exact .error _ _ rfl

theorem name_unplaced (first : Located) : Unplaces id (name first) (name first.unplaced) := by
  obtain ⟨token, position⟩ := first
  cases token with
  | word word =>
    simp only [name, Located.unplaced]
    cases isReserved word with
    | true => exact .error _ _ rfl
    | false => exact .ok word
  | _ => exact .error _ _ rfl

theorem index_unplaced (first : Located) : Unplaces id (index first) (index first.unplaced) := by
  obtain ⟨token, position⟩ := first
  cases token with
  | number digits =>
    simp only [index, Located.unplaced]
    split
    · split
      · exact .ok digits.toNat
      · exact .error _ _ rfl
    · exact .error _ _ rfl
  | _ => exact .error _ _ rfl

theorem unplaced_shape (tokens rest : List Located) (token : Token) (position : Position)
    (shape : unplacedAll tokens = ⟨token, position⟩ :: rest) :
    ∃ place behind, tokens = ⟨token, place⟩ :: behind ∧ unplacedAll behind = rest := by
  obtain ⟨⟨_, place⟩, behind, rfl, same, left⟩ := List.map_eq_cons_iff.mp shape
  cases same
  exact ⟨place, behind, rfl, left⟩

theorem version_unplaced (tokens : List Located) :
    Unplaces unplacedRest (version tokens) (version (unplacedAll tokens)) := by
  unfold version
  split
  · rename_i opened inner _ _ rest
    simp only [unplaced_token]
    cases inner with
    | word word =>
      dsimp only
      split
      · exact .ok (none, rest)
      · exact .ok (none, _)
    | number digits =>
      dsimp only
      split
      · split
        · exact .ok (some digits.toNat, rest)
        · exact .error _ _ rfl
      · exact .ok (none, _)
    | _ => exact .ok (none, _)
  · rename_i other
    split
    · rename_i opened inner _ _ rest shape
      obtain ⟨_, _, rfl, second⟩ := unplaced_shape _ _ _ _ shape
      obtain ⟨_, _, rfl, third⟩ := unplaced_shape _ _ _ _ second
      obtain ⟨_, _, rfl, _⟩ := unplaced_shape _ _ _ _ third
      exact absurd rfl (other _ _ _ _ _)
    · exact .ok (none, tokens)

theorem steps_unplaced (stop : Position) (tokens : List Located) :
    Unplaces unplacedRest (steps stop tokens) (steps .start (unplacedAll tokens)) := by
  match tokens with
  | [] => exact .ok ([], [])
  | ⟨token, position⟩ :: rest =>
    rw [unplaced_token]
    cases token with
    | delimiter mark =>
      cases mark with
      | dot =>
        match rest with
        | [] => exact unexpected_unplaced _ _ _ _ _ _
        | first :: rest =>
          have named := name_unplaced first
          have further := steps_unplaced stop rest
          rw [unplaced_cons, steps, steps]
          generalize name first = placed, name first.unplaced = bare at named ⊢
          cases named with
          | error _ _ same => exact .error _ _ same
          | ok key =>
            generalize steps stop rest = placedNext at further ⊢
            generalize steps .start (unplacedAll rest) = bareNext at further ⊢
            cases further with
            | error _ _ same => exact .error _ _ same
            | ok found => exact .ok (.key key :: found.1, found.2)
      | openBracket =>
        match rest with
        | [] => exact unexpected_unplaced _ _ _ _ _ _
        | first :: rest =>
          have numbered := index_unplaced first
          rw [unplaced_cons, steps, steps]
          generalize index first = placed, index first.unplaced = bare at numbered ⊢
          cases numbered with
          | error _ _ same => exact .error _ _ same
          | ok place =>
            match rest with
            | [] => exact unexpected_unplaced _ _ _ _ _ _
            | ⟨token, closing⟩ :: behind =>
              rw [unplaced_token]
              cases token with
              | delimiter mark =>
                cases mark with
                | closeBracket =>
                  have further := steps_unplaced stop behind
                  dsimp only [id]
                  generalize steps stop behind = placedNext at further ⊢
                  generalize steps .start (unplacedAll behind) = bareNext at further ⊢
                  cases further with
                  | error _ _ same => exact .error _ _ same
                  | ok found => exact .ok (.index place :: found.1, found.2)
                | _ => exact unexpected_unplaced _ _ _ _ _ _
              | _ => exact unexpected_unplaced _ _ _ _ _ _
      | _ => exact .ok ([], _)
    | _ => exact .ok ([], _)
termination_by tokens.length

theorem external_unplaced (tokens : List Located) :
    external (unplacedAll tokens) = unplacedRest (external tokens) := by
  cases tokens with
  | nil => rfl
  | cons first rest =>
    obtain ⟨token, position⟩ := first
    cases token <;> rfl

theorem reference_unplaced (stop : Position) (name : Text) (tokens : List Located) :
    Unplaces unplacedRest (reference stop name tokens) (reference .start name (unplacedAll tokens)) := by
  have numbered := version_unplaced tokens
  rw [reference, reference]
  generalize version tokens = placed, version (unplacedAll tokens) = bare at numbered ⊢
  cases numbered with
  | error _ _ same => exact .error _ _ same
  | ok number =>
    have stepped := steps_unplaced stop number.2
    dsimp only [unplacedRest]
    generalize steps stop number.2 = placedNext at stepped ⊢
    generalize steps .start (unplacedAll number.2) = bareNext at stepped ⊢
    cases stepped with
    | error _ _ same => exact .error _ _ same
    | ok inwards =>
      dsimp only [unplacedRest]
      rw [external_unplaced]
      exact .ok ((⟨name, number.1, inwards.1, (external inwards.2).1⟩ : Reference), (external inwards.2).2)

theorem part_unplaced (stop : Position) (tokens : List Located) :
    Unplaces id (part stop tokens) (part .start (unplacedAll tokens)) := by
  match tokens with
  | [] => exact .error _ _ rfl
  | ⟨token, position⟩ :: rest =>
    rw [unplaced_token]
    cases token with
    | number literal =>
      simp only [part]
      cases decodeFloat literal with
      | ok value => exact .ok value
      | error cause => exact .error _ _ rfl
    | _ => exact .error _ _ rfl

theorem expect_unplaced (stop : Position) (mark : Delimiter) (tokens : List Located) :
    Unplaces unplacedAll (expect stop mark tokens) (expect .start mark (unplacedAll tokens)) := by
  match tokens with
  | [] => exact .error _ _ rfl
  | ⟨token, position⟩ :: rest =>
    rw [unplaced_token, expect, expect]
    split
    · exact .ok rest
    · exact unexpected_unplaced _ _ _ _ _ _

theorem complex_unplaced (stop opened : Position) (tokens : List Located) :
    Unplaces unplacedRest (complex stop opened tokens) (complex .start .start (unplacedAll tokens)) := by
  have tail : ∀ rest, (unplacedAll rest).tail = unplacedAll rest.tail := fun rest => List.map_tail.symm
  rw [complex, complex]
  refine unplaces_bind (part_unplaced stop tokens) _ _ _ fun re => ?_
  rw [tail]
  refine unplaces_bind (expect_unplaced stop .comma tokens.tail) _ _ _ fun behind => ?_
  refine unplaces_bind (part_unplaced stop behind) _ _ _ fun im => ?_
  rw [tail]
  refine unplaces_bind (expect_unplaced stop .closeParen behind.tail) _ _ _ fun rest => ?_
  dsimp only [id]
  cases Value.ofComplex ⟨re, im⟩ with
  | ok value => exact .ok (value, rest)
  | error cause => exact .error _ _ rfl

theorem comma_unplaced (tokens : List Located) :
    skipComma (unplacedAll tokens) = unplacedAll (skipComma tokens) := by
  cases tokens with
  | nil => rfl
  | cons first rest =>
    obtain ⟨token, position⟩ := first
    cases token with
    | delimiter mark => cases mark <;> rfl
    | _ => rfl

theorem paren_fails (scope : Scope) (opened : Position) (rest : List Located) (error : Error)
    (read : complex scope.stop opened rest = .error error) :
    expression scope (⟨.delimiter .openParen, opened⟩ :: rest) = .error error := by
  rw [expression]
  split
  · rename_i same
    cases read.symm.trans same
  · rename_i same
    cases read.symm.trans same
    rfl

theorem paren_unplaced (scope : Scope) (opened : Position) (rest : List Located) :
    Follows id (expression scope (⟨.delimiter .openParen, opened⟩ :: rest))
      (expression scope.unplaced (⟨.delimiter .openParen, .start⟩ :: unplacedAll rest)) := by
  have inside := complex_unplaced scope.stop opened rest
  cases read : complex scope.stop opened rest with
  | error error =>
    rw [read] at inside
    obtain ⟨other, again, kind⟩ := unplaces_error _ _ inside
    rw [paren_fails scope opened rest error read, paren_fails scope.unplaced .start _ other again]
    exact .error _ _ kind
  | ok found =>
    rw [read] at inside
    have again := unplaces_ok _ _ inside
    obtain ⟨_, reads⟩ := expression_finds scope _ _ _ _ (.complex opened rest found.2 found.1 read)
    obtain ⟨_, readsToo⟩ := expression_finds scope.unplaced _ _ _ _ (.complex .start _ _ _ again)
    rw [reads, readsToo]
    exact .ok _ _ _ _ _

def constants : List Text := [trueWord, falseWord, nilWord, beginProlog, endProlog]

theorem constant_unplaced (scope : Scope) (word : Text) (position : Position) (rest : List Located)
    (constant : word ∈ constants) :
    Follows id (expression scope (⟨.word word, position⟩ :: rest))
      (expression scope.unplaced (⟨.word word, .start⟩ :: unplacedAll rest)) := by
  simp only [constants, List.mem_cons, List.not_mem_nil, or_false] at constant
  rw [expression, expression]
  rcases constant with rfl | rfl | rfl | rfl | rfl
  · exact .ok _ _ _ _ _
  · exact .ok _ _ _ _ _
  · exact .ok _ _ _ _ _
  · exact .error _ _ rfl
  · exact .error _ _ rfl

theorem reference_fails (scope : Scope) (word : Text) (position : Position) (rest : List Located)
    (error : Error) (free : word ∉ constants)
    (fails : reference scope.stop word rest = .error error ∨ ∃ found left,
      reference scope.stop word rest = .ok (found, left) ∧ found.resolve scope position = .error error) :
    expression scope (⟨.word word, position⟩ :: rest) = .error error := by
  simp only [constants, List.mem_cons, List.not_mem_nil, or_false, not_or] at free
  obtain ⟨noTrue, noFalse, noNil, noBegin, noEnd⟩ := free
  rw [expression, if_neg noTrue, if_neg noFalse, if_neg noNil, if_neg (not_or.mpr ⟨noBegin, noEnd⟩)]
  obtain read | ⟨found, left, read, unresolved⟩ := fails
  · split
    · rename_i same
      cases read.symm.trans same
      rfl
    · rename_i same
      cases read.symm.trans same
  · split
    · rename_i same
      cases read.symm.trans same
    · rename_i same
      cases read.symm.trans same
      rw [unresolved]

theorem word_unplaced (scope : Scope) (word : Text) (position : Position) (rest : List Located) :
    Follows id (expression scope (⟨.word word, position⟩ :: rest))
      (expression scope.unplaced (⟨.word word, .start⟩ :: unplacedAll rest)) := by
  by_cases free : word ∈ constants
  · exact constant_unplaced scope word position rest free
  · have referred := reference_unplaced scope.stop word rest
    cases read : reference scope.stop word rest with
    | error error =>
      rw [read] at referred
      obtain ⟨other, again, kind⟩ := unplaces_error _ _ referred
      rw [reference_fails scope word position rest error free (.inl read),
        reference_fails scope.unplaced word .start _ other free (.inl again)]
      exact .error _ _ kind
    | ok found =>
      obtain ⟨found, left⟩ := found
      rw [read] at referred
      have again := unplaces_ok _ _ referred
      have resolved := found.resolve_unplaced scope position
      cases result : found.resolve scope position with
      | error error =>
        rw [result] at resolved
        obtain ⟨other, unresolved, kind⟩ := unplaces_error _ _ resolved
        rw [reference_fails scope word position rest error free (.inr ⟨_, _, read, result⟩),
          reference_fails scope.unplaced word .start _ other free (.inr ⟨_, _, again, unresolved⟩)]
        exact .error _ _ kind
      | ok made =>
        rw [result] at resolved
        have resolvedToo := unplaces_ok _ _ resolved
        obtain ⟨_, reads⟩ := expression_finds scope _ _ _ _
          (.reference word position rest left found made.1 made.2 free read result)
        obtain ⟨_, readsToo⟩ := expression_finds scope.unplaced _ _ _ _
          (.reference word .start _ _ _ _ _ free again resolvedToo)
        rw [reads, readsToo]
        exact .ok _ _ _ _ _

-- The recursion is the reader's own. A step carries the positions into notes and errors only, so the tokens
-- left behind it are the same ones again.
mutual
theorem expression_unplaced (scope : Scope) (tokens : List Located) :
    Follows id (expression scope tokens)
      (expression scope.unplaced (unplacedAll tokens)) := by
  match tokens with
  | [] =>
    change Follows id _ (expression scope.unplaced [])
    rw [expression, expression]
    exact unexpected_follows _ _ _ _ _ _ _ _
  | ⟨.number literal, position⟩ :: rest =>
    change Follows id _ (expression scope.unplaced (⟨.number literal, .start⟩ :: unplacedAll rest))
    rw [expression, expression]
    cases Number.ofLiteral literal with
    | ok number => exact .ok _ _ _ _ _
    | error cause => exact .error _ _ rfl
  | ⟨.quoted literal, position⟩ :: rest =>
    change Follows id _ (expression scope.unplaced (⟨.quoted literal, .start⟩ :: unplacedAll rest))
    rw [expression, expression]
    cases Value.ofString literal with
    | ok value => exact .ok _ _ _ _ _
    | error cause => exact .error _ _ rfl
  | ⟨.delimiter .openBrace, opened⟩ :: rest =>
    change Follows id _ (expression scope.unplaced (⟨.delimiter .openBrace, .start⟩ :: unplacedAll rest))
    have inside := entries_unplaced scope opened rest
    rw [expression, expression]
    generalize entries scope opened rest = placed at inside ⊢
    generalize entries scope.unplaced .start (unplacedAll rest) = bare at inside ⊢
    cases inside with
    | error _ _ same => exact .error _ _ same
    | ok => exact .ok _ _ _ _ _
  | ⟨.delimiter .openBracket, opened⟩ :: rest =>
    change Follows id _ (expression scope.unplaced (⟨.delimiter .openBracket, .start⟩ :: unplacedAll rest))
    have inside := elements_unplaced scope opened rest
    rw [expression, expression]
    generalize elements scope opened rest = placed at inside ⊢
    generalize elements scope.unplaced .start (unplacedAll rest) = bare at inside ⊢
    cases inside with
    | error _ _ same => exact .error _ _ same
    | ok => exact .ok _ _ _ _ _
  | ⟨.delimiter .openParen, opened⟩ :: rest => exact paren_unplaced scope opened rest
  | ⟨.word word, position⟩ :: rest => exact word_unplaced scope word position rest
  | ⟨.delimiter .closeBrace, position⟩ :: rest | ⟨.delimiter .closeBracket, position⟩ :: rest
  | ⟨.delimiter .closeParen, position⟩ :: rest | ⟨.delimiter .colon, position⟩ :: rest
  | ⟨.delimiter .comma, position⟩ :: rest | ⟨.delimiter .dot, position⟩ :: rest
  | ⟨.deferred place, position⟩ :: rest =>
    change Follows id _ (expression scope.unplaced (⟨_, .start⟩ :: unplacedAll rest))
    rw [expression, expression]
    · exact unexpected_follows _ _ _ _ _ _ _ _
    all_goals simp
termination_by (tokens.length, 0)
theorem entries_unplaced (scope : Scope) (opened : Position) (tokens : List Located) :
    Follows id (entries scope opened tokens) (entries scope.unplaced .start (unplacedAll tokens)) := by
  match tokens with
  | [] =>
    change Follows id _ (entries scope.unplaced .start [])
    rw [entries, entries]
    exact .error _ _ rfl
  | first :: rest =>
    change Follows id _ (entries scope.unplaced .start (first.unplaced :: unplacedAll rest))
    by_cases closing : first.token = .delimiter .closeBrace
    · obtain ⟨token, position⟩ := first
      cases closing
      change Follows id _
        (entries scope.unplaced .start (⟨.delimiter .closeBrace, .start⟩ :: unplacedAll rest))
      rw [entries, entries]
      exact .ok _ _ _ _ _
    · have named := name_unplaced first
      rw [entries, entries]
      · generalize name first = placed, name first.unplaced = bare at named ⊢
        cases named with
        | error _ _ same => exact .error _ _ same
        | ok key =>
          match rest with
          | [] => exact unexpected_follows _ _ _ _ _ _ _ _
          | ⟨token, colon⟩ :: behind =>
            dsimp only [unplaced_token]
            cases token with
            | delimiter mark =>
              cases mark with
              | colon =>
                have item := expression_unplaced scope behind
                dsimp only
                generalize expression scope behind = placedNext at item ⊢
                generalize expression scope.unplaced (unplacedAll behind) = bareNext at item ⊢
                cases item with
                | error _ _ same => exact .error _ _ same
                | ok value notes left shorter shorterToo =>
                  have others := entries_unplaced scope opened (skipComma left)
                  rw [← comma_unplaced] at others
                  dsimp only
                  generalize entries scope opened (skipComma left) = placedLast at others ⊢
                  generalize entries scope.unplaced .start (skipComma (unplacedAll left)) = bareLast
                    at others ⊢
                  cases others with
                  | error _ _ same => exact .error _ _ same
                  | ok found more last =>
                    dsimp only
                    rw [← Notes.unplaced_append]
                    exact .ok _ _ _ _ _
              | _ => exact unexpected_follows _ _ _ _ _ _ _ _
            | _ => exact unexpected_follows _ _ _ _ _ _ _ _
      all_goals
        rintro position same
        exact closing (congrArg Located.token same)
termination_by (tokens.length, 1)
decreasing_by
  · apply Prod.Lex.left
    simp only [List.length_cons]
    omega
  · have bound := skip_comma_length left
    apply Prod.Lex.left
    simp only [List.length_cons]
    omega
theorem elements_unplaced (scope : Scope) (opened : Position) (tokens : List Located) :
    Follows id (elements scope opened tokens) (elements scope.unplaced .start (unplacedAll tokens)) := by
  match tokens with
  | [] =>
    change Follows id _ (elements scope.unplaced .start [])
    rw [elements, elements]
    exact .error _ _ rfl
  | first :: rest =>
    change Follows id _ (elements scope.unplaced .start (first.unplaced :: unplacedAll rest))
    by_cases closing : first.token = .delimiter .closeBracket
    · obtain ⟨token, position⟩ := first
      cases closing
      change Follows id _
        (elements scope.unplaced .start (⟨.delimiter .closeBracket, .start⟩ :: unplacedAll rest))
      rw [elements, elements]
      exact .ok _ _ _ _ _
    · have item := expression_unplaced scope (first :: rest)
      rw [unplaced_cons] at item
      rw [elements, elements]
      · generalize expression scope (first :: rest) = placed at item ⊢
        generalize expression scope.unplaced (first.unplaced :: unplacedAll rest) = bare at item ⊢
        cases item with
        | error _ _ same => exact .error _ _ same
        | ok value notes left shorter shorterToo =>
          match left with
          | [] => exact .error _ _ rfl
          | ⟨token, place⟩ :: behind =>
            dsimp only [unplaced_token]
            cases token with
            | delimiter mark =>
              cases mark with
              | closeBracket => exact .ok _ _ _ _ _
              | comma =>
                have others := elements_unplaced scope opened behind
                dsimp only
                generalize elements scope opened behind = placedNext at others ⊢
                generalize elements scope.unplaced .start (unplacedAll behind) = bareNext at others ⊢
                cases others with
                | error _ _ same => exact .error _ _ same
                | ok found more last =>
                  dsimp only
                  rw [← Notes.unplaced_append]
                  exact .ok _ _ _ _ _
              | _ => exact .error _ _ rfl
            | _ => exact .error _ _ rfl
      all_goals
        rintro position same
        exact closing (congrArg Located.token same)
termination_by (tokens.length, 1)
decreasing_by
  · exact Prod.Lex.right _ Nat.zero_lt_one
  · apply Prod.Lex.left
    exact Nat.lt_of_succ_lt shorter
end

theorem named_unplaced (tokens : List Located) (named : Named (unplacedAll tokens)) : Named tokens := by
  obtain ⟨word, _, _, _, shape⟩ := named
  obtain ⟨place, behind, rfl, left⟩ := unplaced_shape _ _ _ _ shape
  obtain ⟨colon, rest, rfl, _⟩ := unplaced_shape _ _ _ _ left
  exact ⟨word, place, colon, rest, rfl⟩

theorem binding_unplaced (scope : Scope) (inProlog : Bool) (tokens : List Located) :
    Follows Binding.unplaced (binding scope inProlog tokens)
      (binding scope.unplaced inProlog (unplacedAll tokens)) := by
  by_cases named : Named tokens
  · obtain ⟨word, position, colon, rest, rfl⟩ := named
    change Follows Binding.unplaced _
      (binding scope.unplaced inProlog
        (⟨.word word, .start⟩ :: ⟨.delimiter .colon, .start⟩ :: unplacedAll rest))
    have item := expression_unplaced scope rest
    rw [binding, binding]
    split
    · exact .error _ _ rfl
    · generalize expression scope rest = placed at item ⊢
      generalize expression scope.unplaced (unplacedAll rest) = bare at item ⊢
      cases item with
      | error _ _ same => exact .error _ _ same
      | ok => exact .ok _ _ _ _ _
  · cases tokens with
    | nil =>
      change Follows Binding.unplaced _ (binding scope.unplaced inProlog [])
      rw [binding, binding]
      exact unexpected_follows _ _ _ _ _ _ _ _
    | cons head rest =>
      obtain ⟨token, position⟩ := head
      have item := expression_unplaced scope (⟨token, position⟩ :: rest)
      have unnamed := mt (named_unplaced _) named
      rw [unplaced_token] at item unnamed ⊢
      rw [binding, binding]
      · generalize expression scope (⟨token, position⟩ :: rest) = placed at item ⊢
        generalize expression scope.unplaced (⟨token, .start⟩ :: unplacedAll rest) = bare at item ⊢
        cases item with
        | error _ _ same => exact .error _ _ same
        | ok => exact .ok _ _ _ _ _
      · intro word colon behind isWord isColon
        exact unnamed ⟨word, .start, colon, behind, by rw [isWord, isColon]⟩
      · rintro word colon behind rfl rfl
        exact named ⟨word, position, colon, behind, rfl⟩

theorem whole_unplaced (stop : Position) (tokens : List Located) :
    Unplaces id
      (expression ⟨.empty, true, stop⟩ tokens >>= fun found =>
        match found.rest with
        | [] => .ok found.value
        | rest => unexpected stop .endOfInput rest)
      (expression ⟨.empty, true, .start⟩ (unplacedAll tokens) >>= fun found =>
        match found.rest with
        | [] => .ok found.value
        | rest => unexpected .start .endOfInput rest) := by
  have item := expression_unplaced ⟨.empty, true, stop⟩ tokens
  change Follows id _ (expression ⟨.empty, true, .start⟩ (unplacedAll tokens)) at item
  generalize expression ⟨.empty, true, stop⟩ tokens = placed at item ⊢
  generalize expression ⟨.empty, true, .start⟩ (unplacedAll tokens) = bare at item ⊢
  cases item with
  | error _ _ same => exact .error _ _ same
  | ok value notes rest _ _ =>
    match rest with
    | [] => exact .ok value
    | first :: rest => exact .error _ _ rfl

end Parser

namespace Document

open ParamStore.Parser

theorem push_unplaced (document : Document) (binding : Binding) (notes : Notes) :
    (document.push binding notes).unplaced = document.unplaced.push binding.unplaced notes.unplaced := by
  simp [push, unplaced, Notes.unplaced]

-- The document grows without positions as it does with them, so later references find the same values.
theorem extend_unplaced (options : ParseOptions) (stop : Position) (prolog : Option Position)
    (document : Document) (tokens : List Located) :
    Unplaces unplaced (extend options stop prolog document tokens)
      (extend options .start (prolog.map fun _ => .start) document.unplaced (unplacedAll tokens)) := by
  fun_induction extend options stop prolog document tokens with
  | case1 document =>
    rw [extend.eq_def]
    exact .ok document
  | case2 document opened =>
    rw [extend.eq_def]
    exact .error _ _ rfl
  | case3 prolog document position rest disabled =>
    rw [unplaced_token, extend, if_pos rfl, if_pos disabled]
    exact .error _ _ rfl
  | case4 prolog document position rest enabled nested =>
    rw [unplaced_token, extend, if_pos rfl, if_neg enabled, Option.isSome_map, if_pos nested]
    exact .error _ _ rfl
  | case5 prolog document position rest enabled closed ih =>
    rw [unplaced_token, extend, if_pos rfl, if_neg enabled, Option.isSome_map, if_neg closed]
    exact ih
  | case6 prolog document position rest closed other =>
    rw [unplaced_token, extend, if_neg other, if_pos rfl, Option.isNone_map, if_pos closed]
    exact .error _ _ rfl
  | case7 prolog document position rest opened other ih =>
    rw [unplaced_token, extend, if_neg other, if_pos rfl, Option.isNone_map, if_neg opened]
    exact ih
  | case8 prolog document token position rest first last error read =>
    have found := binding_unplaced ⟨document, options.strictReferences, stop⟩ prolog.isSome
      (⟨token, position⟩ :: rest)
    rw [read, unplaced_token, Scope.unplaced] at found
    obtain ⟨other, fails, kind⟩ := follows_error _ _ _ found
    rw [unplaced_token, extend, if_neg first, if_neg last, Option.isSome_map]
    simp only [fails]
    exact .error _ _ kind
  | case9 prolog document token position rest first last binding notes left shorter read ih =>
    have found := binding_unplaced ⟨document, options.strictReferences, stop⟩ prolog.isSome
      (⟨token, position⟩ :: rest)
    rw [read, unplaced_token, Scope.unplaced] at found
    obtain ⟨shorterToo, reads⟩ := follows_ok _ _ _ found
    rw [unplaced_token, extend, if_neg first, if_neg last, Option.isSome_map]
    simp only [reads]
    rw [← push_unplaced]
    exact ih

end Document
end ParamStore

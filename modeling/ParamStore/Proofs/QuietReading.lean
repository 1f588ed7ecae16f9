import ParamStore.Proofs.ReadingOn

set_option autoImplicit false

namespace ParamStore

theorem Notes.quiet_append (first second : Notes) :
    (first ++ second).diagnostics = [] ↔ first.diagnostics = [] ∧ second.diagnostics = [] :=
  List.append_eq_nil_iff

namespace Reference

theorem deferred_quiet (position : Position) (reference : Reference) :
    (reference.deferredNotes position).diagnostics = [] := by
  unfold deferredNotes
  cases reference.place <;> rfl

theorem resolve_strict (document : Document) (stop position : Position) (reference : Reference)
    (value : Value) (notes : Notes)
    (done : reference.resolve ⟨document, true, stop⟩ position = .ok (value, notes)) :
    notes.diagnostics = [] := by
  unfold resolve at done
  split at done
  · split at done
    · cases done
      exact deferred_quiet position reference
    · cases done
  · split at done
    · cases done
      exact deferred_quiet position reference
    · cases done

theorem resolve_quiet (document : Document) (strict other : Bool) (stop position : Position)
    (reference : Reference) (value : Value) (notes : Notes) (quiet : notes.diagnostics = [])
    (done : reference.resolve ⟨document, strict, stop⟩ position = .ok (value, notes)) :
    reference.resolve ⟨document, other, stop⟩ position = .ok (value, notes) := by
  unfold resolve at done ⊢
  cases bound : reference.base? document with
  | some base => simpa only [bound] using done
  | none =>
    cases deferred : reference.place.isSome with
    | true => simpa only [bound, deferred, if_true] using done
    | false =>
      -- The only note that is left is the diagnostic, which is not quiet.
      cases strict with
      | true => simp [bound, deferred] at done
      | false =>
        simp only [bound, deferred, Bool.false_eq_true, if_false, Except.ok.injEq,
          Prod.mk.injEq] at done
        rw [← done.2] at quiet
        cases quiet

end Reference

namespace Parser

mutual
theorem derives_strict (document : Document) (stop : Position) (tokens left : List Located)
    (value : Value) (notes : Notes) (derived : Derives ⟨document, true, stop⟩ tokens value notes left) :
    notes.diagnostics = [] := by
  match derived with
  | .number .. | .quoted .. | .complex .. | .bool .. | .nil .. => rfl
  | .table opened rest left found notes inside =>
    exact entries_strict document stop rest left found notes inside
  | .sequence opened rest left found notes inside =>
    exact elements_strict document stop rest left found notes inside
  | .reference word position rest left found value notes free read resolved =>
    exact Reference.resolve_strict document stop position found value notes resolved
theorem entries_strict (document : Document) (stop : Position) (tokens left : List Located)
    (found : List (Text × Flagged Value)) (notes : Notes)
    (derived : DerivesEntries ⟨document, true, stop⟩ tokens found notes left) :
    notes.diagnostics = [] := by
  match derived with
  | .close .. => rfl
  | .entry first key colon behind between last value found notes more named item others =>
    exact (Notes.quiet_append notes more).mpr
      ⟨derives_strict document stop behind between value notes item,
        entries_strict document stop (skipComma between) last found more others⟩
theorem elements_strict (document : Document) (stop : Position) (tokens left : List Located)
    (found : List (Flagged Value)) (notes : Notes)
    (derived : DerivesElements ⟨document, true, stop⟩ tokens found notes left) :
    notes.diagnostics = [] := by
  match derived with
  | .close .. => rfl
  | .last tokens position rest value notes item =>
    exact derives_strict document stop tokens _ value notes item
  | .more tokens comma behind last value found notes more item others =>
    exact (Notes.quiet_append notes more).mpr
      ⟨derives_strict document stop tokens _ value notes item,
        elements_strict document stop behind last found more others⟩
end

mutual
theorem derives_quiet (document : Document) (strict other : Bool) (stop : Position)
    (tokens left : List Located) (value : Value) (notes : Notes) (quiet : notes.diagnostics = [])
    (derived : Derives ⟨document, strict, stop⟩ tokens value notes left) :
    Derives ⟨document, other, stop⟩ tokens value notes left := by
  match derived with
  | .number literal position rest number made => exact .number literal position rest number made
  | .quoted literal position rest value made => exact .quoted literal position rest value made
  | .table opened rest left found notes inside =>
    exact .table opened rest left found notes
      (entries_quiet document strict other stop rest left found notes quiet inside)
  | .sequence opened rest left found notes inside =>
    exact .sequence opened rest left found notes
      (elements_quiet document strict other stop rest left found notes quiet inside)
  | .complex opened rest left value read => exact .complex opened rest left value read
  | .bool value position rest => exact .bool value position rest
  | .nil position rest => exact .nil position rest
  | .reference word position rest left found value notes free read resolved =>
    exact .reference word position rest left found value notes free read
      (Reference.resolve_quiet document strict other stop position found value notes quiet resolved)
theorem entries_quiet (document : Document) (strict other : Bool) (stop : Position)
    (tokens left : List Located) (found : List (Text × Flagged Value)) (notes : Notes)
    (quiet : notes.diagnostics = [])
    (derived : DerivesEntries ⟨document, strict, stop⟩ tokens found notes left) :
    DerivesEntries ⟨document, other, stop⟩ tokens found notes left := by
  match derived with
  | .close position rest => exact .close position rest
  | .entry first key colon behind between last value found notes more named item others =>
    obtain ⟨here, later⟩ := (Notes.quiet_append notes more).mp quiet
    exact .entry first key colon behind between last value found notes more named
      (derives_quiet document strict other stop behind between value notes here item)
      (entries_quiet document strict other stop (skipComma between) last found more later others)
theorem elements_quiet (document : Document) (strict other : Bool) (stop : Position)
    (tokens left : List Located) (found : List (Flagged Value)) (notes : Notes)
    (quiet : notes.diagnostics = [])
    (derived : DerivesElements ⟨document, strict, stop⟩ tokens found notes left) :
    DerivesElements ⟨document, other, stop⟩ tokens found notes left := by
  match derived with
  | .close position rest => exact .close position rest
  | .last tokens position rest value notes item =>
    exact .last tokens position rest value notes
      (derives_quiet document strict other stop tokens _ value notes quiet item)
  | .more tokens comma behind last value found notes more item others =>
    obtain ⟨here, later⟩ := (Notes.quiet_append notes more).mp quiet
    exact .more tokens comma behind last value found notes more
      (derives_quiet document strict other stop tokens _ value notes here item)
      (elements_quiet document strict other stop behind last found more later others)
end

theorem binding_strict (document : Document) (inProlog : Bool) (stop : Position)
    (tokens : List Located) (step : Step Binding tokens)
    (done : binding ⟨document, true, stop⟩ inProlog tokens = .ok step) :
    step.notes.diagnostics = [] := by
  rcases binding_cases _ _ tokens step done with
    ⟨_, _, _, rest, value, _, _, item, _⟩ | ⟨_, _, value, _, _, item, _⟩
  · exact derives_strict document stop rest step.rest value step.notes item
  · exact derives_strict document stop tokens step.rest value step.notes item

theorem binding_quiet (document : Document) (strict other inProlog : Bool) (stop : Position)
    (tokens : List Located) (step : Step Binding tokens) (quiet : step.notes.diagnostics = [])
    (done : binding ⟨document, strict, stop⟩ inProlog tokens = .ok step) :
    Finds (binding ⟨document, other, stop⟩ inProlog tokens) step.value step.notes step.rest := by
  rcases binding_cases _ _ tokens step done with
    ⟨word, position, colon, rest, value, rfl, free, item, made⟩ |
    ⟨first, rest, value, rfl, unnamed, item, made⟩
  · rw [made]
    exact binding_named _ inProlog word position colon rest _ value _ free
      (derives_quiet document strict other stop rest _ value _ quiet item)
  · rw [made]
    exact binding_bare _ inProlog first rest _ value _ unnamed
      (derives_quiet document strict other stop _ _ value _ quiet item)

end Parser
end ParamStore

import Mathlib.Data.List.Induction
import ParamStore.Proofs.EarlierBindings
import ParamStore.Proofs.WrittenReferences

set_option autoImplicit false

namespace ParamStore
namespace Value

theorem step_error (segment : Segment) (value : Value) (cause : Error)
    (failed : value.step segment = .error cause) :
    cause.kind = .cantFind ∨ cause.kind = .typeMismatch := by
  cases segment with
  | key name =>
    cases value with
    | table entries =>
      simp only [step, member] at failed
      split at failed
      · cases failed
      · cases failed
        exact .inl rfl
    | _ =>
      cases failed
      exact .inr rfl
  | index place =>
    cases value with
    | sequence items =>
      simp only [step, element] at failed
      split at failed
      · cases failed
      · cases failed
        exact .inl rfl
    | _ =>
      cases failed
      exact .inr rfl

theorem follow_error (segments : List Segment) (base : Flagged Value) (cause : Error)
    (failed : follow segments base = .error cause) :
    ∃ before segment after middle, segments = before ++ segment :: after ∧
      follow before base = .ok middle ∧ middle.value.step segment = .error cause := by
  induction segments generalizing base with
  | nil => cases failed
  | cons segment rest ih =>
    cases stepped : base.value.step segment with
    | error error =>
      simp only [follow, stepped, bind, Except.bind] at failed
      cases failed
      exact ⟨[], segment, rest, base, rfl, rfl, stepped⟩
    | ok inner =>
      simp only [follow, stepped, bind, Except.bind] at failed
      obtain ⟨before, last, after, middle, rfl, reached, fails⟩ := ih inner failed
      refine ⟨segment :: before, last, after, middle, rfl, ?_, fails⟩
      simp only [follow, stepped, bind, Except.bind, reached]

end Value

namespace Document

theorem to_table_get (document : Document) (name : Text) :
    document.toTable.get? name = document.lookup name := by
  obtain ⟨bindings, diagnostics, deferred⟩ := document
  unfold toTable lookup versions
  induction bindings using List.reverseRecOn with
  | nil => rfl
  | append_singleton before last ih =>
    simp only at ih ⊢
    rw [List.foldl_append, List.filter_append, List.map_append, List.getLast?_append, ← ih]
    simp only [List.foldl_cons, List.foldl_nil]
    cases named : last.name with
    | none => simp [named]
    | some other =>
      by_cases same : name = other
      · subst same
        simp [named, Table.set, Table.get?, Keyed.lookup_put]
      · have different : other ≠ name := fun equal => same equal.symm
        simp [named, Table.set, Table.get?, Keyed.lookup_put, same, different]

theorem bound_lookup (document : Document) (binding : Binding) (member : binding ∈ document.bindings)
    (name : Text) (named : binding.name = some name) : ∃ item, document.lookup name = some item := by
  have present : binding.item ∈ document.versions name :=
    List.mem_map.mpr ⟨binding, List.mem_filter.mpr ⟨member, by simp [named]⟩, rfl⟩
  exact Option.isSome_iff_exists.mp (List.getLast?_isSome.mpr (List.ne_nil_of_mem present))

end Document

open Reference

namespace Parser

theorem free_words (word : Text) (free : isReserved word = false) :
    word ≠ trueWord ∧ word ≠ falseWord ∧ word ≠ nilWord ∧ word ≠ beginProlog ∧ word ≠ endProlog := by
  refine ⟨?_, ?_, ?_, ?_, ?_⟩ <;>
  · rintro rfl
    exact absurd free (by decide)

end Parser

namespace Document

section Resolved

variable {options : ParseOptions} {stop position : Position} {early : Document} {written : Written}

end Resolved

end Document
end ParamStore

import ParamStore.Proofs.ReadingOn
import ParamStore.Proofs.ParserSteps

set_option autoImplicit false

namespace ParamStore

structure Notes.Within (notes : Notes) (positions : List Position) : Prop where
  diagnostics : (notes.diagnostics.map Diagnostic.position).Sublist positions
  deferred : (notes.deferred.map DeferredReference.position).Sublist positions

structure Document.Within (document : Document) (positions : List Position) : Prop where
  bindings : (document.bindings.map Binding.position).Sublist positions
  diagnostics : (document.diagnostics.map Diagnostic.position).Sublist positions
  deferred : (document.deferred.map DeferredReference.position).Sublist positions

namespace Notes

theorem none_within (positions : List Position) : none.Within positions :=
  ⟨List.nil_sublist _, List.nil_sublist _⟩

theorem append_within (first second : Notes) (front back : List Position)
    (within : first.Within front) (withinToo : second.Within back) :
    (first ++ second).Within (front ++ back) := by
  change (first.append second).Within (front ++ back)
  constructor
  · rw [append, List.map_append]
    exact within.diagnostics.append withinToo.diagnostics
  · rw [append, List.map_append]
    exact within.deferred.append withinToo.deferred

theorem within_more (notes : Notes) (positions more : List Position) (within : notes.Within positions)
    (sublist : positions.Sublist more) : notes.Within more :=
  ⟨within.diagnostics.trans sublist, within.deferred.trans sublist⟩

end Notes

namespace Reference

theorem deferred_within (position : Position) (reference : Reference) :
    (reference.deferredNotes position).Within [position] := by
  unfold deferredNotes
  cases reference.place with
  | none => exact Notes.none_within _
  | some place => exact ⟨List.nil_sublist _, List.Sublist.refl _⟩

theorem resolve_within (scope : Scope) (position : Position) (reference : Reference) (value : Value)
    (notes : Notes) (resolved : reference.resolve scope position = .ok (value, notes)) :
    notes.Within [position] := by
  unfold resolve at resolved
  split at resolved
  · split at resolved
    · cases resolved
      exact deferred_within position reference
    · cases resolved
  · split at resolved
    · cases resolved
      exact deferred_within position reference
    · split at resolved
      · cases resolved
      · cases resolved
        exact ⟨List.Sublist.refl _, List.nil_sublist _⟩

end Reference

namespace Parser

def places (tokens : List Located) : List Position := tokens.map Located.position

def Noted (tokens left : List Located) (notes : Notes) : Prop :=
  ∃ used, tokens = used ++ left ∧ notes.Within (places used)

theorem noted_none (tokens left : List Located) (suffix : left <:+ tokens) : Noted tokens left .none := by
  obtain ⟨used, rfl⟩ := suffix
  exact ⟨used, rfl, Notes.none_within _⟩

theorem noted_behind (tokens between left : List Located) (notes : Notes) (suffix : between <:+ tokens)
    (noted : Noted between left notes) : Noted tokens left notes := by
  obtain ⟨front, rfl⟩ := suffix
  obtain ⟨used, rfl, within⟩ := noted
  refine ⟨front ++ used, (List.append_assoc ..).symm, Notes.within_more _ _ _ within ?_⟩
  rw [places, places, List.map_append]
  exact List.sublist_append_right _ _

theorem noted_append (tokens between left : List Located) (notes more : Notes)
    (noted : Noted tokens between notes) (notedToo : Noted between left more) :
    Noted tokens left (notes ++ more) := by
  obtain ⟨front, rfl, within⟩ := noted
  obtain ⟨used, rfl, withinToo⟩ := notedToo
  refine ⟨front ++ used, (List.append_assoc ..).symm, ?_⟩
  rw [places, List.map_append]
  exact Notes.append_within _ _ _ _ within withinToo

-- The induction is on what is derived. Notes of one part and of the next are appended as the tokens of the
-- parts are.
mutual
theorem derives_noted (scope : Scope) (tokens left : List Located) (value : Value) (notes : Notes)
    (derived : Derives scope tokens value notes left) : Noted tokens left notes := by
  match derived with
  | .number literal position rest number made => exact noted_none _ _ (List.suffix_cons _ _)
  | .quoted literal position rest value made => exact noted_none _ _ (List.suffix_cons _ _)
  | .table opened rest left found notes inside =>
    exact noted_behind _ rest left notes (List.suffix_cons _ _)
      (entries_noted scope rest left found notes inside)
  | .sequence opened rest left found notes inside =>
    exact noted_behind _ rest left notes (List.suffix_cons _ _)
      (elements_noted scope rest left found notes inside)
  | .complex opened rest left value read =>
    exact noted_none _ _ ((complex_ok _ _ _ _ _ read).1.trans (List.suffix_cons _ _))
  | .bool value position rest => exact noted_none _ _ (List.suffix_cons _ _)
  | .nil position rest => exact noted_none _ _ (List.suffix_cons _ _)
  | .reference word position rest left found value notes free read resolved =>
    obtain ⟨used, rfl⟩ := reference_suffix _ _ _ _ _ read
    have within := found.resolve_within scope position value notes resolved
    exact ⟨⟨.word word, position⟩ :: used, rfl,
      Notes.within_more _ _ _ within (List.cons_sublist_cons.mpr (List.nil_sublist _))⟩
theorem entries_noted (scope : Scope) (tokens left : List Located) (found : List (Text × Flagged Value))
    (notes : Notes) (derived : DerivesEntries scope tokens found notes left) :
    Noted tokens left notes := by
  match derived with
  | .close position rest => exact noted_none _ _ (List.suffix_cons _ _)
  | .entry first key colon behind between last value found notes more named item others =>
    have here := derives_noted scope behind between value notes item
    have later := entries_noted scope (skipComma between) last found more others
    exact noted_append _ between last notes more (noted_behind _ behind between notes ⟨[_, _], rfl⟩ here)
      (noted_behind between _ last more (skip_comma_suffix between) later)
theorem elements_noted (scope : Scope) (tokens left : List Located) (found : List (Flagged Value))
    (notes : Notes) (derived : DerivesElements scope tokens found notes left) :
    Noted tokens left notes := by
  match derived with
  | .close position rest => exact noted_none _ _ (List.suffix_cons _ _)
  | .last tokens position rest value notes item =>
    obtain ⟨used, rfl, within⟩ := derives_noted scope tokens _ value notes item
    refine ⟨used ++ [⟨.delimiter .closeBracket, position⟩], by simp, Notes.within_more _ _ _ within ?_⟩
    rw [places, places, List.map_append]
    exact List.sublist_append_left _ _
  | .more tokens comma behind last value found notes more item others =>
    have here := derives_noted scope tokens _ value notes item
    have later := elements_noted scope behind last found more others
    exact noted_append _ _ last notes more here (noted_behind _ behind last more (List.suffix_cons _ _) later)
end

theorem binding_noted (scope : Scope) (inProlog : Bool) (tokens : List Located)
    (step : Step Binding tokens) (done : binding scope inProlog tokens = .ok step) :
    ∃ used, tokens = used ++ step.rest ∧ step.notes.Within (places used) ∧
      [step.value.position].Sublist (places used) := by
  have split := binding_cases scope inProlog tokens step done
  obtain ⟨made, notes, left, shorter⟩ := step
  dsimp only at split ⊢
  rcases split with
    ⟨word, position, colon, rest, value, rfl, _, item, rfl⟩ | ⟨first, rest, value, rfl, _, item, rfl⟩
  · obtain ⟨used, rfl, within⟩ := derives_noted _ _ _ _ _ item
    exact ⟨⟨.word word, position⟩ :: ⟨.delimiter .colon, colon⟩ :: used, rfl,
      Notes.within_more _ _ _ within (List.sublist_append_right [position, colon] _),
      List.cons_sublist_cons.mpr (List.nil_sublist _)⟩
  · obtain ⟨used, same, within⟩ := derives_noted _ _ _ _ _ item
    refine ⟨used, same, within, ?_⟩
    cases used with
    | nil =>
      -- A step takes at least one token.
      rw [same] at shorter
      exact absurd shorter (Nat.lt_irrefl _)
    | cons head tail =>
      cases same
      exact List.cons_sublist_cons.mpr (List.nil_sublist _)

end Parser

namespace Document

open ParamStore.Parser

theorem within_more (document : Document) (positions more : List Position)
    (within : document.Within positions) (sublist : positions.Sublist more) : document.Within more :=
  ⟨within.bindings.trans sublist, within.diagnostics.trans sublist, within.deferred.trans sublist⟩

theorem push_within (document : Document) (made : Binding) (notes : Notes) (before here : List Position)
    (within : document.Within before) (noted : notes.Within here)
    (stands : [made.position].Sublist here) : (document.push made notes).Within (before ++ here) := by
  constructor
  · rw [push, List.map_append]
    exact within.bindings.append stands
  · rw [push, List.map_append]
    exact within.diagnostics.append noted.diagnostics
  · rw [push, List.map_append]
    exact within.deferred.append noted.deferred

theorem extend_within (options : ParseOptions) (stop : Position) (prolog : Option Position)
    (document last : Document) (tokens : List Located) (before : List Position)
    (within : document.Within before) (done : extend options stop prolog document tokens = .ok last) :
    last.Within (before ++ places tokens) := by
  fun_induction extend options stop prolog document tokens generalizing before with
  | case1 document =>
    cases done
    exact within_more _ _ _ within (List.sublist_append_left _ _)
  | case5 prolog document position rest allowed nested ih =>
    have passed := within_more _ _ (before ++ [position]) within (List.sublist_append_left _ _)
    have later := ih (before ++ [position]) passed done
    rwa [List.append_assoc] at later
  | case7 prolog document position rest opened noBegin ih =>
    have passed := within_more _ _ (before ++ [position]) within (List.sublist_append_left _ _)
    have later := ih (before ++ [position]) passed done
    rwa [List.append_assoc] at later
  | case9 prolog document token position rest noBegin noEnd made notes left shorter bound ih =>
    obtain ⟨used, split, noted, stands⟩ := binding_noted _ _ _ _ bound
    have later := ih (before ++ places used) (push_within _ _ _ _ _ within noted stands) done
    rwa [split, places, List.map_append, ← List.append_assoc]
  | _ => cases done

end Document
end ParamStore

import ParamStore.Document.Parser
import ParamStore.Proofs.CellTables
import ParamStore.Proofs.Outcome

set_option autoImplicit false

namespace ParamStore
namespace Value

mutual
def Canonical : Value → Prop
  | .number value => ∃ literal, Number.ofLiteral literal = .ok value
  | .complex re im => (∃ x, Number.ofFloat x = .ok re) ∧ ∃ y, Number.ofFloat y = .ok im
  | .string text => ∃ content : Text, text = content.canonical
  | .sequence items => ItemsCanonical items
  | .table entries => Keyed.Ordered entries ∧ EntriesCanonical entries
  | _ => True
def ItemsCanonical : List (Flagged Value) → Prop
  | [] => True
  | ⟨inProlog, value⟩ :: tail => inProlog = false ∧ value.Canonical ∧ ItemsCanonical tail
def EntriesCanonical : List (Text × Flagged Value) → Prop
  | [] => True
  | (key, ⟨inProlog, value⟩) :: tail =>
    (key.isKey = true ∧ isReserved key = false) ∧ inProlog = false ∧ value.Canonical ∧
      EntriesCanonical tail
end

theorem items_canonical_iff (items : List (Flagged Value)) :
    ItemsCanonical items ↔ ∀ item ∈ items, item.inProlog = false ∧ item.value.Canonical := by
  induction items with
  | nil => simp [ItemsCanonical]
  | cons item tail ih => simp [ItemsCanonical, ih, and_assoc]

theorem entries_canonical_iff (entries : List (Text × Flagged Value)) :
    EntriesCanonical entries ↔ ∀ entry ∈ entries, (entry.1.isKey = true ∧
      isReserved entry.1 = false) ∧ entry.2.inProlog = false ∧ entry.2.value.Canonical := by
  induction entries with
  | nil => simp [EntriesCanonical]
  | cons entry tail ih =>
    obtain ⟨key, item⟩ := entry
    simp only [EntriesCanonical, ih, List.forall_mem_cons, and_assoc]

theorem of_list_canonical (items : List (Text × Flagged Value)) (canonical : EntriesCanonical items) :
    EntriesCanonical (Keyed.ofList items) := by
  rw [entries_canonical_iff] at canonical ⊢
  exact fun entry member => canonical entry (Keyed.of_list_mem items entry member)

theorem step_canonical (segment : Segment) (value : Value) (canonical : value.Canonical)
    (item : Flagged Value) (found : value.step segment = .ok item) : item.value.Canonical := by
  cases segment with
  | key name =>
    cases value with
    | table entries =>
      cases same : Keyed.lookup name entries with
      | none => simp [step, member, same] at found
      | some inner =>
        have equal : inner = item := by simpa [step, member, same] using found
        have present := Keyed.lookup_mem name inner entries same
        exact equal ▸ ((entries_canonical_iff entries).mp canonical.2 _ present).2.2
    | nil => cases found
    | bool value => cases found
    | number value => cases found
    | complex re im => cases found
    | string text => cases found
    | sequence items => cases found
  | index place =>
    cases value with
    | sequence items =>
      cases same : items[place]? with
      | none => simp [step, element, same] at found
      | some inner =>
        have equal : inner = item := by simpa [step, element, same] using found
        exact equal ▸ ((items_canonical_iff items).mp canonical _ (List.mem_of_getElem? same)).2
    | nil => cases found
    | bool value => cases found
    | number value => cases found
    | complex re im => cases found
    | string text => cases found
    | table entries => cases found

theorem follow_canonical (segments : List Segment) (base item : Flagged Value)
    (canonical : base.value.Canonical) (found : follow segments base = .ok item) :
    item.value.Canonical := by
  induction segments generalizing base with
  | nil =>
    cases found
    exact canonical
  | cons segment rest ih =>
    obtain ⟨inner, reached, further⟩ := (Outcome.bind_ok _ _ _).mp found
    exact ih inner (step_canonical segment base.value canonical inner reached) further

theorem of_string_iff (raw : Text) (value : Value) :
    ofString raw = .ok value ↔
      ∃ content, raw.content = .ok content ∧ value = .string content.canonical := by
  constructor
  · intro made
    obtain ⟨text, encoded, rfl⟩ := (Outcome.map_ok _ _ _).mp made
    obtain ⟨content, read, rfl⟩ := (Outcome.map_ok _ _ _).mp encoded
    exact ⟨content, read, rfl⟩
  · rintro ⟨content, read, rfl⟩
    simp [ofString, encodeString, read, Except.map]

theorem of_string_canonical (raw : Text) (value : Value) (made : ofString raw = .ok value) :
    value.Canonical := by
  obtain ⟨content, _, rfl⟩ := (of_string_iff raw value).mp made
  exact ⟨content, rfl⟩

theorem of_complex_iff (parts : Complex) (value : Value) :
    ofComplex parts = .ok value ↔ ∃ re im, Number.ofFloat parts.re = .ok re ∧
      Number.ofFloat parts.im = .ok im ∧ value = .complex re im := by
  constructor
  · intro made
    obtain ⟨re, first, behind⟩ := (Outcome.bind_ok _ _ _).mp made
    obtain ⟨im, second, same⟩ := (Outcome.bind_ok _ _ _).mp behind
    cases same
    exact ⟨re, im, first, second, rfl⟩
  · rintro ⟨re, im, first, second, rfl⟩
    simp [ofComplex, first, second, bind, Except.bind, pure, Except.pure]

theorem of_complex_canonical (parts : Complex) (value : Value) (made : ofComplex parts = .ok value) :
    value.Canonical := by
  obtain ⟨re, im, first, second, rfl⟩ := (of_complex_iff parts value).mp made
  exact ⟨⟨parts.re, first⟩, parts.im, second⟩

end Value

def Document.Canonical (document : Document) : Prop :=
  ∀ binding ∈ document.bindings, binding.item.value.Canonical

theorem Document.versions_canonical (document : Document) (canonical : document.Canonical)
    (name : Text) (item : Flagged Value) (member : item ∈ document.versions name) :
    item.value.Canonical := by
  obtain ⟨binding, bound, rfl⟩ := List.mem_map.mp member
  exact canonical binding (List.mem_filter.mp bound).1

theorem Reference.resolve_canonical (scope : Scope) (known : scope.document.Canonical)
    (position : Position) (reference : Reference) (value : Value) (notes : Notes)
    (done : reference.resolve scope position = .ok (value, notes)) : value.Canonical := by
  rw [resolve] at done
  cases found : reference.base? scope.document with
  | none =>
    simp only [found] at done
    split at done
    · cases done
      trivial
    · split at done
      · cases done
      · cases done
        trivial
  | some base =>
    have canonical : base.value.Canonical := by
      rw [base?] at found
      cases version : reference.version with
      | none =>
        simp only [version] at found
        exact scope.document.versions_canonical known reference.name base
          (List.mem_of_getLast? found)
      | some number =>
        simp only [version] at found
        exact scope.document.versions_canonical known reference.name base
          (List.mem_of_getElem? found)
    simp only [found] at done
    cases reached : Value.follow reference.steps base with
    | error error => simp [reached] at done
    | ok item =>
      simp only [reached, Except.ok.injEq, Prod.mk.injEq] at done
      rw [← done.1]
      exact Value.follow_canonical reference.steps base item canonical reached

end ParamStore

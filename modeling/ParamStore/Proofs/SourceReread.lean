import ParamStore.Proofs.EncodeCells
import ParamStore.Proofs.NumberTexts
import ParamStore.Proofs.StringTexts
import ParamStore.Proofs.ValueCanonical

set_option autoImplicit false

namespace ParamStore
namespace Value

mutual
inductive Rereads : Value → Value → Prop where
  | nil : Rereads .nil .nil
  | bool (value : Bool) : Rereads (.bool value) (.bool value)
  | number (value other : Number) (made : Number.ofLiteral value.text = .ok other) :
      Rereads (.number value) (.number other)
  | complex (re im : Number) : Rereads (.complex re im) (.complex re im)
  | string (text : Text) : Rereads (.string text) (.string text)
  | sequence (items others : List (Flagged Value)) (each : ItemsReread items others) :
      Rereads (.sequence items) (.sequence others)
  | table (entries others : List (Text × Flagged Value)) (each : EntriesReread entries others) :
      Rereads (.table entries) (.table others)
inductive ItemsReread : List (Flagged Value) → List (Flagged Value) → Prop where
  | nil : ItemsReread [] []
  | cons (flag : Bool) (value other : Value) (tail others : List (Flagged Value))
      (item : Rereads value other) (rest : ItemsReread tail others) :
      ItemsReread (⟨flag, value⟩ :: tail) (⟨false, other⟩ :: others)
inductive EntriesReread :
    List (Text × Flagged Value) → List (Text × Flagged Value) → Prop where
  | nil : EntriesReread [] []
  | cons (key : Text) (flag : Bool) (value other : Value)
      (tail others : List (Text × Flagged Value)) (item : Rereads value other)
      (rest : EntriesReread tail others) :
      EntriesReread ((key, ⟨flag, value⟩) :: tail) ((key, ⟨false, other⟩) :: others)
end

theorem entries_reread_keys (entries others : List (Text × Flagged Value))
    (again : EntriesReread entries others) : Keyed.keys others = Keyed.keys entries := by
  match again with
  | .nil => rfl
  | .cons key flag value other tail others item rest =>
    exact congrArg (key :: ·) (entries_reread_keys tail others rest)

theorem entries_reread_ordered (entries others : List (Text × Flagged Value))
    (ordered : Keyed.Ordered entries) (again : EntriesReread entries others) :
    Keyed.Ordered others := by
  rw [Keyed.Ordered] at ordered ⊢
  rw [entries_reread_keys entries others again]
  exact ordered

mutual
def KeepsKinds : Value → Prop
  | .number value => value.KeepsKind
  | .sequence items => ItemsKeepKinds items
  | .table entries => EntriesKeepKinds entries
  | _ => True
def ItemsKeepKinds : List (Flagged Value) → Prop
  | [] => True
  | ⟨_, value⟩ :: tail => value.KeepsKinds ∧ ItemsKeepKinds tail
def EntriesKeepKinds : List (Text × Flagged Value) → Prop
  | [] => True
  | (_, ⟨_, value⟩) :: tail => value.KeepsKinds ∧ EntriesKeepKinds tail
end

mutual
theorem rereads_self_iff (value : Value) (canonical : value.Canonical) :
    value.Rereads value ↔ value.KeepsKinds := by
  cases value with
  | nil => exact ⟨fun _ => trivial, fun _ => .nil⟩
  | bool value => exact ⟨fun _ => trivial, fun _ => .bool value⟩
  | number value =>
    obtain ⟨literal, made⟩ := canonical
    have same := Number.of_literal_iff literal value made
    constructor
    · intro again
      cases again with
      | number _ _ back => exact same.mp back
    · intro keeps
      exact .number value value (same.mpr keeps)
  | complex re im => exact ⟨fun _ => trivial, fun _ => .complex re im⟩
  | string text => exact ⟨fun _ => trivial, fun _ => .string text⟩
  | sequence items =>
    have each := items_reread_self_iff items canonical
    constructor
    · intro again
      cases again with
      | sequence _ _ inside => exact each.mp inside
    · intro keeps
      exact .sequence items items (each.mpr keeps)
  | table entries =>
    have each := entries_reread_self_iff entries canonical.2
    constructor
    · intro again
      cases again with
      | table _ _ inside => exact each.mp inside
    · intro keeps
      exact .table entries entries (each.mpr keeps)
theorem items_reread_self_iff (items : List (Flagged Value)) (canonical : ItemsCanonical items) :
    ItemsReread items items ↔ ItemsKeepKinds items := by
  match items with
  | [] => exact ⟨fun _ => trivial, fun _ => .nil⟩
  | ⟨flag, value⟩ :: tail =>
    obtain ⟨rfl, first, later⟩ := canonical
    have head := rereads_self_iff value first
    have rest := items_reread_self_iff tail later
    constructor
    · intro again
      cases again with
      | cons _ _ _ _ _ item others => exact ⟨head.mp item, rest.mp others⟩
    · intro keeps
      exact .cons false value value tail tail (head.mpr keeps.1) (rest.mpr keeps.2)
theorem entries_reread_self_iff (entries : List (Text × Flagged Value))
    (canonical : EntriesCanonical entries) :
    EntriesReread entries entries ↔ EntriesKeepKinds entries := by
  match entries with
  | [] => exact ⟨fun _ => trivial, fun _ => .nil⟩
  | (key, ⟨flag, value⟩) :: tail =>
    obtain ⟨_, rfl, first, later⟩ := canonical
    have head := rereads_self_iff value first
    have rest := entries_reread_self_iff tail later
    constructor
    · intro again
      cases again with
      | cons _ _ _ _ _ _ item others => exact ⟨head.mp item, rest.mp others⟩
    · intro keeps
      exact .cons key false value value tail tail (head.mpr keeps.1) (rest.mpr keeps.2)
end

theorem of_quoted_escape (content : Text) :
    ofString (Text.quoted content.escape) = .ok (.string content.canonical) := by
  have raw : Text.content (Text.quoted content.escape) = .ok content :=
    (Text.double_quoted content.escape content).mpr (Text.unescape_escape content)
  exact (of_string_iff _ _).mpr ⟨content, raw, rfl⟩

end Value

end ParamStore

import ParamStore.Proofs.DepotGrowth
import ParamStore.Proofs.EncodeCells

set_option autoImplicit false

namespace ParamStore
namespace Value

mutual
-- Tables lose their entries from a prolog, sequences such items only where `fully` says so.
def cleared (fully : Bool) : Value → Value
  | .sequence items => .sequence (itemsCleared fully items)
  | .table entries => .table (entriesCleared fully entries)
  | other => other
def itemsCleared (fully : Bool) : List (Flagged Value) → List (Flagged Value)
  | [] => []
  | ⟨inProlog, value⟩ :: tail =>
    if fully && inProlog then itemsCleared fully tail
    else ⟨false, cleared fully value⟩ :: itemsCleared fully tail
def entriesCleared (fully : Bool) : List (Text × Flagged Value) → List (Text × Flagged Value)
  | [] => []
  | (key, ⟨inProlog, value⟩) :: tail =>
    if inProlog then entriesCleared fully tail
    else (key, ⟨false, cleared fully value⟩) :: entriesCleared fully tail
end

mutual
theorem plain_cleared (fully : Bool) (value : Value) (plain : value.Plain) :
    value.cleared fully = value := by
  cases value with
  | sequence items => rw [cleared, items_plain_cleared fully items plain]
  | table entries => rw [cleared, entries_plain_cleared fully entries plain.2]
  | _ => rfl
theorem items_plain_cleared (fully : Bool) (items : List (Flagged Value)) (plain : ItemsPlain items) :
    itemsCleared fully items = items := by
  match items with
  | [] => rfl
  | ⟨_, value⟩ :: tail =>
    obtain ⟨rfl, inside, rest⟩ := plain
    rw [itemsCleared, plain_cleared fully value inside, items_plain_cleared fully tail rest]
    simp
theorem entries_plain_cleared (fully : Bool) (entries : List (Text × Flagged Value))
    (plain : EntriesPlain entries) : entriesCleared fully entries = entries := by
  match entries with
  | [] => rfl
  | (key, ⟨_, value⟩) :: tail =>
    obtain ⟨_, rfl, inside, rest⟩ := plain
    rw [entriesCleared, plain_cleared fully value inside, entries_plain_cleared fully tail rest]
    simp
end

theorem entries_cleared_keys (fully : Bool) (entries : List (Text × Flagged Value)) :
    (Keyed.keys (entriesCleared fully entries)).Sublist (Keyed.keys entries) := by
  induction entries with
  | nil => exact .slnil
  | cons entry tail ih =>
    obtain ⟨key, inProlog, value⟩ := entry
    cases inProlog with
    | true => exact .cons key ih
    | false => exact .cons_cons key ih

theorem entries_cleared_ordered (fully : Bool) (entries : List (Text × Flagged Value))
    (ordered : Keyed.Ordered entries) : Keyed.Ordered (entriesCleared fully entries) :=
  List.Pairwise.sublist (entries_cleared_keys fully entries) ordered

theorem entries_cleared_lookup (fully : Bool) (entries : List (Text × Flagged Value))
    (ordered : Keyed.Ordered entries) (key : Text) :
    Keyed.lookup key (entriesCleared fully entries) =
      (Keyed.lookup key entries).bind fun item =>
        if item.inProlog then none else some ⟨false, item.value.cleared fully⟩ := by
  induction entries with
  | nil => rfl
  | cons entry tail ih =>
    obtain ⟨first, inProlog, value⟩ := entry
    have later := ih (Keyed.ordered_tail first ⟨inProlog, value⟩ tail ordered)
    by_cases same : key = first
    · subst same
      -- An entry that is left out has no other entry under its key.
      rw [Keyed.ordered_head key ⟨inProlog, value⟩ tail ordered] at later
      cases inProlog with
      | true => simpa [entriesCleared, Keyed.lookup] using later
      | false => simp [entriesCleared, Keyed.lookup]
    · cases inProlog <;> simpa [entriesCleared, Keyed.lookup, same] using later

theorem entries_cleared_plain (fully : Bool) (entries : List (Text × Flagged Value))
    (each : ∀ entry ∈ entries, entry.1.isKey = true ∧ entry.2.value.Plain) :
    EntriesPlain (entriesCleared fully entries) := by
  induction entries with
  | nil => trivial
  | cons entry tail ih =>
    have rest := ih fun later member => each later (List.mem_cons_of_mem _ member)
    obtain ⟨key, inProlog, value⟩ := entry
    cases inProlog with
    | true => exact rest
    | false =>
      obtain ⟨valid, plain⟩ := each _ (List.mem_cons_self ..)
      refine ⟨valid, rfl, ?_, rest⟩
      rw [plain_cleared fully value plain]
      exact plain

end Value

-- Two ways to materialize that only the tally can tell apart.
structure Matches {α : Type} (made other : Progress × Except Error α) : Prop where
  store : made.1.store = other.1.store
  outcome : made.2 = other.2

namespace Value

mutual
theorem encode_cleared (value : Value) (before other : Progress) (same : before.store = other.store) :
    Matches (value.encode before) ((value.cleared false).encode other) := by
  cases value with
  | sequence items =>
    obtain ⟨stores, outcomes⟩ := encode_items_cleared items before other same
    simp only [cleared, encode]
    exact ⟨stores, congrArg (Except.map Cell.sequence) outcomes⟩
  | table entries =>
    have inside := encode_entries_cleared .empty entries before other same
    simp only [cleared, encode]
    generalize encodeEntries .empty entries before = made at inside
    generalize encodeEntries .empty (entriesCleared false entries) other = again at inside
    obtain ⟨last, outcome⟩ := made
    obtain ⟨otherLast, otherOutcome⟩ := again
    obtain ⟨stores, outcomes⟩ := inside
    cases outcomes
    cases outcome with
    | error error => exact ⟨stores, rfl⟩
    | ok found =>
      refine ⟨?_, rfl⟩
      simp only [Progress.internTable]
      rw [stores]
  | _ => exact ⟨same, rfl⟩
theorem encode_items_cleared (items : List (Flagged Value)) (before other : Progress)
    (same : before.store = other.store) :
    Matches (encodeItems items before) (encodeItems (itemsCleared false items) other) := by
  match items with
  | [] => exact ⟨same, rfl⟩
  | ⟨_, value⟩ :: tail =>
    have first := encode_cleared value before other same
    simp only [itemsCleared, Bool.false_and, Bool.false_eq_true, if_false, encodeItems]
    generalize value.encode before = made at first
    generalize (value.cleared false).encode other = again at first
    obtain ⟨next, outcome⟩ := made
    obtain ⟨otherNext, otherOutcome⟩ := again
    obtain ⟨stores, outcomes⟩ := first
    cases outcomes
    cases outcome with
    | error error => exact ⟨stores, rfl⟩
    | ok cell =>
      obtain ⟨later, rest⟩ := encode_items_cleared tail next otherNext stores
      exact ⟨later, congrArg (Except.map (cell :: ·)) rest⟩
theorem encode_entries_cleared (kept : Entries) (entries : List (Text × Flagged Value))
    (before other : Progress) (same : before.store = other.store) :
    Matches (encodeEntries kept entries before)
      (encodeEntries kept (entriesCleared false entries) other) := by
  match entries with
  | [] => exact ⟨same, rfl⟩
  | (key, ⟨inProlog, value⟩) :: tail =>
    cases inProlog with
    | true =>
      simp only [entriesCleared, if_true, encodeEntries]
      exact encode_entries_cleared kept tail before.countProlog other same
    | false =>
      have first := encode_cleared value before other same
      simp only [entriesCleared, Bool.false_eq_true, if_false, encodeEntries]
      generalize value.encode before = made at first
      generalize (value.cleared false).encode other = again at first
      obtain ⟨next, outcome⟩ := made
      obtain ⟨otherNext, otherOutcome⟩ := again
      obtain ⟨stores, outcomes⟩ := first
      cases outcomes
      cases outcome with
      | error error => exact ⟨stores, rfl⟩
      | ok cell =>
        simp only at stores ⊢
        rw [← stores]
        cases kept.insert next.store key cell with
        | error error => exact ⟨stores, rfl⟩
        | ok after => exact encode_entries_cleared after tail next otherNext stores
end

theorem encode_store (value : Value) (before other : Progress) (same : before.store = other.store) :
    Matches (value.encode before) (value.encode other) := by
  obtain ⟨store, outcome⟩ := encode_cleared value before before rfl
  obtain ⟨otherStore, otherOutcome⟩ := encode_cleared value other before same.symm
  exact ⟨store.trans otherStore.symm, outcome.trans otherOutcome.symm⟩

end Value

namespace Table

def cleared (table : Table) (fully : Bool) : Table := ⟨Value.entriesCleared fully table.entries⟩

theorem materialize_cleared (table : Table) (depot : Depot) (home : Nat) :
    table.materialize depot home = (table.cleared false).materialize depot home := by
  obtain ⟨stores, outcomes⟩ := Value.encode_entries_cleared .empty table.entries
    (.start (depot.store home)) (.start (depot.store home)) rfl
  simp only [materialize, cleared]
  rw [stores, outcomes]

end Table
end ParamStore

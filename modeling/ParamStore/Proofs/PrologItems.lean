import ParamStore.Proofs.ClearedValues
import ParamStore.Proofs.TableKeys
import ParamStore.Proofs.MaterializeDocument

set_option autoImplicit false

namespace ParamStore
namespace Value

mutual
def ItemsOpen : Value → Prop
  | .sequence items => AllOpen items
  | .table entries => EntriesOpen entries
  | _ => True
def AllOpen : List (Flagged Value) → Prop
  | [] => True
  | ⟨inProlog, value⟩ :: tail => inProlog = false ∧ value.ItemsOpen ∧ AllOpen tail
def EntriesOpen : List (Text × Flagged Value) → Prop
  | [] => True
  | (_, ⟨inProlog, value⟩) :: tail => (inProlog = false → value.ItemsOpen) ∧ EntriesOpen tail
end

mutual
theorem cleared_open (value : Value) (unflagged : value.ItemsOpen) :
    value.cleared true = value.cleared false := by
  cases value with
  | sequence items => rw [cleared, cleared, items_cleared_open items unflagged]
  | table entries => rw [cleared, cleared, entries_cleared_open entries unflagged]
  | _ => rfl
theorem items_cleared_open (items : List (Flagged Value)) (unflagged : AllOpen items) :
    itemsCleared true items = itemsCleared false items := by
  match items with
  | [] => rfl
  | ⟨_, value⟩ :: tail =>
    obtain ⟨rfl, inside, rest⟩ := unflagged
    simp [itemsCleared, cleared_open value inside, items_cleared_open tail rest]
theorem entries_cleared_open (entries : List (Text × Flagged Value))
    (unflagged : EntriesOpen entries) :
    entriesCleared true entries = entriesCleared false entries := by
  match entries with
  | [] => rfl
  | (_, ⟨inProlog, value⟩) :: tail =>
    obtain ⟨inside, rest⟩ := unflagged
    have later := entries_cleared_open tail rest
    cases inProlog with
    | true => simpa [entriesCleared] using later
    | false => simp [entriesCleared, later, cleared_open value (inside rfl)]
end

mutual
theorem encode_ok_plain (fully : Bool) (value : Value) (before : Progress) (cell : Cell)
    (sorted : value.Sorted) (done : (value.encode before).2 = .ok cell) :
    (value.cleared fully).Plain := by
  cases value with
  | sequence items =>
    obtain ⟨cells, made, _⟩ := (Outcome.map_ok _ _ _).mp done
    exact encode_items_ok_plain fully items before cells sorted made
  | table entries =>
    refine ⟨entries_cleared_ordered fully entries sorted.1, ?_⟩
    rw [encode] at done
    split at done
    · cases done
    · rename_i made
      exact encode_entries_ok_plain fully .empty entries before _ sorted.2 (congrArg Prod.snd made)
  | _ => trivial
theorem encode_items_ok_plain (fully : Bool) (items : List (Flagged Value)) (before : Progress)
    (cells : List Cell) (sorted : ItemsSorted items)
    (done : (encodeItems items before).2 = .ok cells) : ItemsPlain (itemsCleared fully items) := by
  match items with
  | [] => trivial
  | ⟨inProlog, value⟩ :: tail =>
    rw [encodeItems] at done
    split at done
    · cases done
    · rename_i made
      obtain ⟨rest, later, _⟩ := (Outcome.map_ok _ _ _).mp done
      have first := encode_ok_plain fully value before _ sorted.1 (congrArg Prod.snd made)
      have behind := encode_items_ok_plain fully tail _ rest sorted.2 later
      rw [itemsCleared]
      split
      · exact behind
      · exact ⟨rfl, first, behind⟩
theorem encode_entries_ok_plain (fully : Bool) (kept : Entries)
    (entries : List (Text × Flagged Value)) (before : Progress) (after : Entries)
    (sorted : EntriesSorted entries) (done : (encodeEntries kept entries before).2 = .ok after) :
    EntriesPlain (entriesCleared fully entries) := by
  match entries with
  | [] => trivial
  | (key, ⟨inProlog, value⟩) :: tail =>
    cases inProlog with
    | true => exact encode_entries_ok_plain fully kept tail before.countProlog after sorted.2 done
    | false =>
      simp only [encodeEntries, Bool.false_eq_true, if_false] at done
      split at done
      · cases done
      · rename_i made
        split at done
        · cases done
        · rename_i inserted
          obtain ⟨valid, _, _⟩ := (Entries.insert_ok _ _ _ _ _).mp inserted
          exact ⟨valid, rfl, encode_ok_plain fully value before _ sorted.1 (congrArg Prod.snd made),
            encode_entries_ok_plain fully _ tail _ after sorted.2 done⟩
end

theorem items_cleared_length (items : List (Flagged Value)) :
    (itemsCleared true items).length ≤ (itemsCleared false items).length := by
  induction items with
  | nil => exact Nat.le_refl _
  | cons item tail ih =>
    obtain ⟨inProlog, value⟩ := item
    cases inProlog <;> simp [itemsCleared] <;> omega

theorem contents_cells (entries : List (Text × Flagged Value)) (ordered : Keyed.Ordered entries)
    (same : content .empty (entriesCleared false entries) =
      content .empty (entriesCleared true entries))
    (key : Text) (item : Flagged Value) (member : (key, item) ∈ entries)
    (unflagged : item.inProlog = false) :
    (item.value.cleared false).cell = (item.value.cleared true).cell := by
  have looked : ∀ fully, (content .empty (entriesCleared fully entries)).lookup key =
      some (item.value.cleared fully).cell := by
    intro fully
    rw [content_lookup _ _ (entries_cleared_ordered fully entries ordered),
      entries_cleared_lookup fully entries ordered, Keyed.ordered_lookup entries ordered key item member]
    simp [unflagged]
  have first := looked false
  rw [same, looked true] at first
  exact (Option.some.inj first).symm

mutual
-- Cells tell whether an item from a prolog was left in, since the sequence would be shorter without it.
theorem cells_open (value : Value) (sorted : value.Sorted)
    (apart : Entries.Apart ((value.cleared false).nested ++ (value.cleared true).nested))
    (same : (value.cleared false).cell = (value.cleared true).cell) : value.ItemsOpen := by
  cases value with
  | sequence items => exact item_cells_open items sorted apart (Cell.sequence.inj same)
  | table entries =>
    simp only [cleared, nested] at apart
    have equal := apart _ (by simp) _ (by simp) (Cell.table.inj same)
    exact entries_cells_open entries sorted.2 (Entries.apart_split _ _ _ _ apart).1
      (contents_cells entries sorted.1 equal)
  | _ => trivial
theorem item_cells_open (items : List (Flagged Value)) (sorted : ItemsSorted items)
    (apart : Entries.Apart
      (itemsNested (itemsCleared false items) ++ itemsNested (itemsCleared true items)))
    (same : itemCells (itemsCleared false items) = itemCells (itemsCleared true items)) :
    AllOpen items := by
  match items with
  | [] => trivial
  | ⟨inProlog, value⟩ :: tail =>
    cases inProlog with
    | true =>
      have lengths := congrArg List.length same
      have shorter := items_cleared_length tail
      simp only [item_cells_map, List.length_map, itemsCleared, Bool.and_true, Bool.and_self, if_true,
        Bool.false_eq_true, if_false, List.length_cons] at lengths
      omega
    | false =>
      simp only [itemsCleared, Bool.and_false, Bool.false_eq_true, if_false, itemCells,
        List.cons.injEq, itemsNested] at same apart
      obtain ⟨first, rest⟩ := same
      obtain ⟨inside, behind⟩ := Entries.apart_split _ _ _ _ apart
      exact ⟨rfl, cells_open value sorted.1 inside first, item_cells_open tail sorted.2 behind rest⟩
theorem entries_cells_open (entries : List (Text × Flagged Value)) (sorted : EntriesSorted entries)
    (apart : Entries.Apart
      (entriesNested (entriesCleared false entries) ++ entriesNested (entriesCleared true entries)))
    (same : ∀ key item, (key, item) ∈ entries → item.inProlog = false →
      (item.value.cleared false).cell = (item.value.cleared true).cell) : EntriesOpen entries := by
  match entries with
  | [] => trivial
  | (key, ⟨inProlog, value⟩) :: tail =>
    have later := fun other item member => same other item (List.mem_cons_of_mem _ member)
    cases inProlog with
    | true => exact ⟨by rintro ⟨⟩, entries_cells_open tail sorted.2 apart later⟩
    | false =>
      simp only [entriesCleared, Bool.false_eq_true, if_false, entriesNested] at apart
      obtain ⟨inside, behind⟩ := Entries.apart_split _ _ _ _ apart
      have first := same key ⟨false, value⟩ (List.mem_cons_self ..) rfl
      exact ⟨fun _ => cells_open value sorted.1 inside first,
        entries_cells_open tail sorted.2 behind later⟩
end

end Value

namespace Table

def ItemsOpen (table : Table) : Prop := Value.EntriesOpen table.entries

theorem cleared_open (table : Table) (unflagged : table.ItemsOpen) :
    table.cleared true = table.cleared false :=
  congrArg Table.mk (Value.entries_cleared_open table.entries unflagged)

def involved (table : Table) : List Entries :=
  Value.entriesNested (table.cleared false).entries ++ Value.entriesNested (table.cleared true).entries

theorem materialize_ok_plain (table : Table) (built : table.Built) (depot : Depot) (home : Nat)
    (set : ParameterSet) (done : (table.materialize depot home).2 = .ok set) (fully : Bool) :
    Value.EntriesPlain (table.cleared fully).entries := by
  obtain ⟨entries, made, _⟩ := (Outcome.map_ok _ _ _).mp done
  exact Value.encode_entries_ok_plain fully .empty table.entries _ entries
    (built_sorted table built).2 made

theorem materialize_unflagged (table : Table) :
    (∀ depot home,
      table.materialize depot home = (table.cleared false).materialize depot home) ∧
    (∀ other : Table, table.cleared false = other.cleared false → ∀ depot home,
      table.materialize depot home = other.materialize depot home) ∧
    (table.ItemsOpen → ∀ depot home,
      table.materialize depot home = (table.cleared true).materialize depot home) ∧
    (table.Built → Entries.Apart table.involved → ∀ depot home set,
      (table.materialize depot home).2 = .ok set →
      ∃ copy, ((table.cleared true).materialize depot home).2 = .ok copy ∧
        ((set.sameContent copy = true ∧ set.id = copy.id) ↔ table.ItemsOpen)) := by
  refine ⟨table.materialize_cleared, ?_, ?_, ?_⟩
  · intro other same depot home
    rw [table.materialize_cleared, other.materialize_cleared, same]
  · intro unflagged depot home
    rw [table.materialize_cleared, cleared_open table unflagged]
  · intro built apart depot home set done
    have plain := materialize_ok_plain table built depot home set done
    have outcome := materialize_outcome (table.cleared false) (plain false) depot home
    have again := materialize_outcome (table.cleared true) (plain true) depot home
    rw [← materialize_cleared, done] at outcome
    cases outcome
    refine ⟨_, again, ?_, ?_⟩
    · rintro ⟨same, _⟩
      have sorted := built_sorted table built
      exact Value.entries_cells_open table.entries sorted.2 apart
        (Value.contents_cells table.entries sorted.1 (eq_of_beq same))
    · intro unflagged
      rw [cleared_open table unflagged]
      exact ⟨beq_self_eq_true _, rfl⟩

def mixedFlags : Table :=
  let inner := (Table.empty.insert ['t', '.', 'k'] ⟨false, .nil⟩).1
  let beside := (inner.insert ['t', '.', 'h'] ⟨true, .nil⟩).1
  let listing := (beside.insert ['s'] ⟨false, .sequence []⟩).1
  (listing.insert ['s', '[', '0', ']'] ⟨true, .bool true⟩).1

theorem mixed_flags_entries : mixedFlags =
    ⟨[(['s'], ⟨false, .sequence [⟨true, .bool true⟩]⟩),
      (['t'], ⟨false, .table [(['h'], ⟨true, .nil⟩), (['k'], ⟨false, .nil⟩)]⟩)]⟩ := by
  with_unfolding_all rfl

theorem materialize_unflagged_mixed :
    mixedFlags.Built ∧ Entries.Apart mixedFlags.involved ∧
      ∃ set copy, (mixedFlags.materialize ⟨[.empty]⟩ 0).2 = .ok set ∧
        ((mixedFlags.cleared false).materialize ⟨[.empty]⟩ 0).2 = .ok set ∧
        ((mixedFlags.cleared true).materialize ⟨[.empty]⟩ 0).2 = .ok copy ∧
        ¬ (set.sameContent copy = true ∧ set.id = copy.id) := by
  have built : mixedFlags.Built :=
    .insert _ _ _ (.insert _ _ _ (.insert _ _ _ (.insert _ _ _ .empty trivial) trivial) trivial) trivial
  have shut : ¬ mixedFlags.ItemsOpen := by
    rw [mixed_flags_entries]
    rintro ⟨first, _⟩
    cases (first rfl).1
  have apart : Entries.Apart mixedFlags.involved := by
    rw [mixed_flags_entries]
    decide +kernel
  have succeeds : (mixedFlags.materialize ⟨[.empty]⟩ 0).2.isOk = true := by
    rw [mixed_flags_entries]
    decide +kernel
  obtain ⟨entries, _, _, items⟩ := materialize_unflagged mixedFlags
  cases done : (mixedFlags.materialize ⟨[.empty]⟩ 0).2 with
  | error error =>
    rw [done] at succeeds
    cases succeeds
  | ok set =>
    obtain ⟨copy, again, same⟩ := items built apart ⟨[.empty]⟩ 0 set done
    exact ⟨built, apart, set, copy, rfl, entries _ _ ▸ done, again, fun both => shut (same.mp both)⟩

def flaggedItem : Table :=
  ((Table.empty.insert ['s'] ⟨false, .sequence []⟩).1.insert ['s', '[', '0', ']']
    ⟨true, .bool true⟩).1

theorem flagged_item_stays :
    ∃ set copy, (flaggedItem.materialize ⟨[.empty]⟩ 0).2 = .ok set ∧
      ((flaggedItem.cleared true).materialize ⟨[.empty]⟩ 0).2 = .ok copy ∧
      set.text .empty = "s:[true]".toList ∧ copy.text .empty = "s:[]".toList ∧
      set.sameContent copy = false ∧ set.id ≠ copy.id := by
  have made : flaggedItem = ⟨[(['s'], ⟨false, .sequence [⟨true, .bool true⟩]⟩)]⟩ := by
    with_unfolding_all rfl
  rw [made]
  exact ⟨_, _, rfl, rfl, rfl, rfl, by decide +kernel, by decide +kernel⟩

end Table
end ParamStore

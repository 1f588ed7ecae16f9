import ParamStore.Proofs.CellTables
import ParamStore.Proofs.Outcome
import ParamStore.Proofs.StoreGrowth

set_option autoImplicit false

namespace ParamStore
namespace Store

theorem check_tables_iff (store : Store) (cell : Cell) :
    store.checkTables cell = .ok () ↔ store.Holds cell.tables := by
  rw [checkTables]
  cases missing : cell.tables.find? fun id => !store.contains id with
  | none =>
    have present := List.find?_eq_none.mp missing
    simpa [Holds] using present
  | some id =>
    have absent := List.find?_some missing
    have member := List.mem_of_find?_eq_some missing
    simp only [reduceCtorEq, false_iff]
    intro holds
    rw [holds id member] at absent
    cases absent

def HoldsSlot (store : Store) (slot : Option Cell) : Prop :=
  ∀ cell, slot = some cell → store.Holds cell.tables

inductive EntriesIn (store : Store) : Option Cell → Entries → Prop where
  | none : EntriesIn store none .empty
  | table (id : Identifier) (entries : Entries) (read : store.lookup id = some entries) :
      EntriesIn store (some (.table id)) entries

inductive ItemsIn : Option Cell → List Cell → Prop where
  | none : ItemsIn none []
  | sequence (items : List Cell) : ItemsIn (some (.sequence items)) items

theorem table_at_in (store : Store) (path : Text) (step : Segment) (slot : Option Cell)
    (entries : Entries) (reached : store.tableAt path step slot = .ok entries) :
    store.EntriesIn slot entries := by
  unfold tableAt at reached
  split at reached
  · cases reached
    exact .none
  · exact .table _ entries ((entries_ok store _ entries).mp reached)
  · cases reached

theorem sequence_at_in (path : Text) (step : Segment) (slot : Option Cell) (items : List Cell)
    (reached : sequenceAt path step slot = .ok items) : ItemsIn slot items := by
  unfold sequenceAt at reached
  split at reached
  · cases reached
    exact .none
  · cases reached
    exact .sequence items
  · cases reached

theorem table_at_holds (store : Store) (grown : Grown store.contents) (path : Text) (step : Segment)
    (slot : Option Cell) (entries : Entries) (found : store.tableAt path step slot = .ok entries) :
    store.Holds entries.tables := by
  cases table_at_in store path step slot entries found with
  | none => exact fun id named => by cases named
  | table id _ read => exact grown_holds store grown id entries read

theorem sequence_at_holds (store : Store) (path : Text) (step : Segment) (slot : Option Cell)
    (held : store.HoldsSlot slot) (items : List Cell)
    (found : sequenceAt path step slot = .ok items) : ∀ item ∈ items, store.Holds item.tables := by
  cases sequence_at_in path step slot items found with
  | none => simp
  | sequence _ =>
    intro item member id named
    exact held (.sequence items) rfl id ((Cell.mem_item_tables items id).mpr ⟨item, member, named⟩)

theorem holds_items (store : Store) (items : List Cell)
    (each : ∀ item ∈ items, store.Holds item.tables) : store.Holds (Cell.sequence items).tables := by
  intro id named
  obtain ⟨item, member, inside⟩ := (Cell.mem_item_tables items id).mp named
  exact each item member id inside

theorem holds_put (store : Store) (entries : Entries) (key : Text) (cell : Cell)
    (old : store.Holds entries.tables) (fresh : store.Holds cell.tables) :
    store.Holds (entries.put key cell).tables :=
  fun id named => (Entries.put_tables entries key cell id named).elim (fresh id) (old id)

theorem intern_grows (store : Store) (entries : Entries) (grown : Grown store.contents)
    (holds : store.Holds entries.tables) :
    Grows store (store.intern entries).2 ∧
      (store.intern entries).2.Holds (Cell.table (store.intern entries).1).tables := by
  refine ⟨insert_grows store entries grown holds, fun id named => ?_⟩
  have same : id = entries.identifier := List.mem_singleton.mp named
  exact same ▸ insert_contains store entries.identifier entries

theorem place_key (path : Text) (overwrite : Bool) (cell : Cell) (name : Text) (rest : List Segment)
    (slot : Option Cell) (store : Store) (placed : Cell) (filled : Store)
    (done : place path overwrite cell (.key name :: rest) slot store = .ok (placed, filled)) :
    ∃ entries inner next, store.tableAt path (.key name) slot = .ok entries ∧
      place path overwrite cell rest (entries.lookup name) store = .ok (inner, next) ∧
      placed = .table (entries.put name inner).identifier ∧
      filled = (next.intern (entries.put name inner)).2 := by
  simp only [place, Outcome.bind_ok] at done
  obtain ⟨entries, reached, ⟨inner, next⟩, below, result⟩ := done
  cases result
  exact ⟨entries, inner, next, reached, below, rfl, rfl⟩

theorem place_index (path : Text) (overwrite : Bool) (cell : Cell) (index : Nat)
    (rest : List Segment) (slot : Option Cell) (store : Store) (placed : Cell) (filled : Store)
    (done : place path overwrite cell (.index index :: rest) slot store = .ok (placed, filled)) :
    ∃ items inner made, sequenceAt path (.index index) slot = .ok items ∧
      place path overwrite cell rest items[index]? store = .ok (inner, filled) ∧
      placed = .sequence made ∧
      ∀ wanted, made[wanted]? = if wanted = index then some inner else items[wanted]? := by
  simp only [place, Outcome.bind_ok] at done
  obtain ⟨items, reached, result⟩ := done
  split at result
  · cases result
  · rename_i bound
    obtain ⟨⟨inner, next⟩, below, appended⟩ := (Outcome.bind_ok _ _ _).mp result
    split at appended
    · rename_i last
      cases appended
      refine ⟨items, inner, _, reached, below, rfl, fun wanted => ?_⟩
      by_cases here : wanted = index
      · simp [here, last]
      · by_cases inside : wanted < items.length
        · simp [here, List.getElem?_append_left inside]
        · have beyond : (items ++ [inner]).length ≤ wanted := by
            simp only [List.length_append, List.length_singleton]
            omega
          simp [here, List.getElem?_eq_none beyond, List.getElem?_eq_none (Nat.le_of_not_lt inside)]
    · rename_i notLast
      cases appended
      refine ⟨items, inner, _, reached, below, rfl, fun wanted => ?_⟩
      have inside : index < items.length := by omega
      by_cases here : wanted = index
      · simp [here, inside]
      · simp [here, Ne.symm here]

theorem key_placed (path : Text) (overwrite : Bool) (cell : Cell) (name : Text) (rest : List Segment)
    (slot : Option Cell) (store : Store) (entries : Entries) (inner : Cell) (next : Store)
    (reached : store.tableAt path (.key name) slot = .ok entries)
    (below : place path overwrite cell rest (entries.lookup name) store = .ok (inner, next)) :
    place path overwrite cell (.key name :: rest) slot store =
      .ok (.table (entries.put name inner).identifier, (next.intern (entries.put name inner)).2) := by
  simp only [place, reached, below, bind, Except.bind]
  rfl

theorem index_placed (path : Text) (overwrite : Bool) (cell : Cell) (index : Nat)
    (rest : List Segment) (slot : Option Cell) (store : Store) (items : List Cell) (inner : Cell)
    (filled : Store) (reached : sequenceAt path (.index index) slot = .ok items)
    (bound : index ≤ items.length)
    (below : place path overwrite cell rest items[index]? store = .ok (inner, filled)) :
    place path overwrite cell (.index index :: rest) slot store =
      .ok (.sequence (if index = items.length then items ++ [inner] else items.set index inner),
        filled) := by
  simp only [place, reached, below, bind, Except.bind, if_neg (Nat.not_lt.mpr bound)]
  split <;> rfl

theorem place_grows (path : Text) (overwrite : Bool) (cell : Cell) (segments : List Segment)
    (slot : Option Cell) (store : Store) (grown : Grown store.contents)
    (slotHeld : store.HoldsSlot slot) (held : store.Holds cell.tables) (placed : Cell)
    (filled : Store) (done : place path overwrite cell segments slot store = .ok (placed, filled)) :
    Grows store filled ∧ filled.Holds placed.tables := by
  induction segments generalizing slot placed filled with
  | nil =>
    rw [place] at done
    split at done
    · cases done
    · cases done
      exact ⟨grows_refl store grown, held⟩
  | cons segment rest ih =>
    cases segment with
    | key name =>
      obtain ⟨entries, inner, next, reached, below, rfl, rfl⟩ :=
        place_key path overwrite cell name rest slot store placed filled done
      have old := table_at_holds store grown path (.key name) slot entries reached
      have slotBelow : store.HoldsSlot (entries.lookup name) :=
        fun found present id named =>
          old id (Entries.lookup_tables entries name found present id named)
      obtain ⟨grows, innerHeld⟩ := ih (entries.lookup name) slotBelow inner next below
      have holds := holds_put next entries name inner
        (keeps_holds store next grows.keeps entries.tables old) innerHeld
      obtain ⟨last, tableHeld⟩ := intern_grows next (entries.put name inner) grows.grown holds
      exact ⟨grows_trans store next _ grows last, tableHeld⟩
    | index place =>
      obtain ⟨items, inner, made, reached, below, rfl, changed⟩ :=
        place_index path overwrite cell place rest slot store placed filled done
      have each := sequence_at_holds store path (.index place) slot slotHeld items reached
      have slotBelow : store.HoldsSlot items[place]? :=
        fun found present => each found (List.mem_of_getElem? present)
      obtain ⟨grows, innerHeld⟩ := ih items[place]? slotBelow inner filled below
      refine ⟨grows, holds_items filled made fun item member => ?_⟩
      obtain ⟨wanted, here⟩ := List.mem_iff_getElem?.mp member
      rw [changed wanted] at here
      split at here
      · cases here
        exact innerHeld
      · exact keeps_holds store filled grows.keeps item.tables (each item (List.mem_of_getElem? here))

end Store
end ParamStore

import ParamStore.Cell
import ParamStore.Proofs.KeyedLists

set_option autoImplicit false

namespace ParamStore
namespace Cell

theorem mem_item_tables (items : List Cell) (id : Identifier) :
    id ∈ itemTables items ↔ ∃ item ∈ items, id ∈ item.tables := by
  induction items with
  | nil => simp [itemTables]
  | cons item tail ih => simp [itemTables, ih]

end Cell

namespace Entries

theorem eq_of_cells (entries other : Entries) (same : entries.cells = other.cells) :
    entries = other := by
  obtain ⟨_, _⟩ := entries
  obtain ⟨_, _⟩ := other
  simpa using same

theorem mem_tables (entries : Entries) (id : Identifier) :
    id ∈ entries.tables ↔ ∃ entry ∈ entries.cells, id ∈ entry.2.tables :=
  List.mem_flatMap

theorem lookup_tables (entries : Entries) (key : Text) (cell : Cell)
    (found : entries.lookup key = some cell) (id : Identifier) (named : id ∈ cell.tables) :
    id ∈ entries.tables :=
  (mem_tables entries id).mpr ⟨(key, cell), Keyed.lookup_mem key cell entries.cells found, named⟩

theorem lookup_put (entries : Entries) (query key : Text) (cell : Cell) :
    (entries.put key cell).lookup query = if query = key then some cell else entries.lookup query :=
  Keyed.lookup_put query key cell entries.cells

theorem put_tables (entries : Entries) (key : Text) (cell : Cell) (id : Identifier)
    (named : id ∈ (entries.put key cell).tables) : id ∈ cell.tables ∨ id ∈ entries.tables := by
  obtain ⟨entry, member, inside⟩ := (mem_tables _ id).mp named
  rcases Keyed.mem_put key cell entries.cells entry member with rfl | old
  · exact .inl inside
  · exact .inr ((mem_tables entries id).mpr ⟨entry, old, inside⟩)

theorem remove_tables (entries : Entries) (key : Text) (id : Identifier)
    (named : id ∈ (entries.remove key).tables) : id ∈ entries.tables := by
  obtain ⟨entry, member, inside⟩ := (mem_tables _ id).mp named
  exact (mem_tables entries id).mpr ⟨entry, (List.mem_filter.mp member).1, inside⟩

end Entries
end ParamStore

import ParamStore.Table
import ParamStore.Proofs.KeyedLists

set_option autoImplicit false

namespace ParamStore
namespace Value

mutual
def Sorted : Value → Prop
  | .sequence items => ItemsSorted items
  | .table entries => Keyed.Ordered entries ∧ EntriesSorted entries
  | _ => True
def ItemsSorted : List (Flagged Value) → Prop
  | [] => True
  | ⟨_, value⟩ :: tail => value.Sorted ∧ ItemsSorted tail
def EntriesSorted : List (Text × Flagged Value) → Prop
  | [] => True
  | (_, ⟨_, value⟩) :: tail => value.Sorted ∧ EntriesSorted tail
end

theorem items_sorted_iff (items : List (Flagged Value)) :
    ItemsSorted items ↔ ∀ item ∈ items, item.value.Sorted := by
  induction items with
  | nil => simp [ItemsSorted]
  | cons item tail ih => simp [ItemsSorted, ih]

theorem entries_sorted_iff (entries : List (Text × Flagged Value)) :
    EntriesSorted entries ↔ ∀ entry ∈ entries, entry.2.value.Sorted := by
  induction entries with
  | nil => simp [EntriesSorted]
  | cons entry tail ih => simp [EntriesSorted, ih]

theorem put_sorted (key : Text) (item : Flagged Value) (entries : List (Text × Flagged Value))
    (sorted : (table entries).Sorted) (fresh : item.value.Sorted) :
    (table (Keyed.put key item entries)).Sorted := by
  refine ⟨Keyed.ordered_put key item entries sorted.1, (entries_sorted_iff _).mpr ?_⟩
  intro entry member
  rcases Keyed.mem_put key item entries entry member with rfl | old
  · exact fresh
  · exact (entries_sorted_iff entries).mp sorted.2 entry old

theorem lookup_sorted (key : Text) (item : Flagged Value) (entries : List (Text × Flagged Value))
    (sorted : (table entries).Sorted) (found : Keyed.lookup key entries = some item) :
    item.value.Sorted :=
  (entries_sorted_iff entries).mp sorted.2 _ (Keyed.lookup_mem key item entries found)

theorem set_sorted (items : List (Flagged Value)) (place : Nat) (item : Flagged Value)
    (sorted : ItemsSorted items) (fresh : item.value.Sorted) : ItemsSorted (items.set place item) := by
  refine (items_sorted_iff _).mpr fun other member => ?_
  rcases List.mem_or_eq_of_mem_set member with old | rfl
  · exact (items_sorted_iff items).mp sorted other old
  · exact fresh

theorem empty_for_sorted (segment : Segment) : (emptyFor segment).Sorted := by
  cases segment with
  | key name => exact ⟨List.Pairwise.nil, trivial⟩
  | index place => trivial

theorem place_sorted (path : Text) (item : Flagged Value) (fresh : item.value.Sorted)
    (rest : List Segment) (segment : Segment) (target : Value) (sorted : target.Sorted) :
    (place path item rest segment target).1.Sorted := by
  fun_induction place path item rest segment target with
  | case1 key entries => exact put_sorted key item entries sorted fresh
  | case2 next rest key entries slot inner ih =>
    refine put_sorted key _ entries sorted (ih ?_)
    cases found : Keyed.lookup key entries with
    | none => simpa [slot, found] using empty_for_sorted next
    | some old => simpa [slot, found] using lookup_sorted key old entries sorted found
  | case3 index items inside => exact set_sorted items index item sorted fresh
  | case4 items behind =>
    refine (items_sorted_iff _).mpr fun other member => ?_
    rcases List.mem_append.mp member with old | last
    · exact (items_sorted_iff items).mp sorted other old
    · exact List.mem_singleton.mp last ▸ fresh
  | case5 => exact sorted
  | case6 => exact sorted
  | case7 next rest index items slot found inner ih =>
    have member := List.mem_of_getElem? found
    exact set_sorted items index _ sorted (ih ((items_sorted_iff items).mp sorted slot member))
  | case8 => exact sorted

theorem remove_sorted (rest : List Segment) (segment : Segment) (target after : Value)
    (sorted : target.Sorted) (done : remove? rest segment target = some after) : after.Sorted := by
  fun_induction remove? rest segment target generalizing after with
  | case1 key entries present =>
    cases done
    refine ⟨Keyed.ordered_remove key entries sorted.1, (entries_sorted_iff _).mpr ?_⟩
    exact fun entry member =>
      (entries_sorted_iff entries).mp sorted.2 entry (List.mem_filter.mp member).1
  | case4 next rest key entries slot found ih =>
    obtain ⟨inner, removed, rfl⟩ := Option.map_eq_some_iff.mp done
    exact put_sorted key _ entries sorted (ih inner (lookup_sorted key slot entries sorted found) removed)
  | case5 index items inside =>
    cases done
    exact (items_sorted_iff _).mpr fun item member =>
      (items_sorted_iff items).mp sorted item (List.mem_of_mem_eraseIdx member)
  | case8 next rest index items slot found ih =>
    obtain ⟨inner, removed, rfl⟩ := Option.map_eq_some_iff.mp done
    have member := List.mem_of_getElem? found
    exact set_sorted items index _ sorted
      (ih inner ((items_sorted_iff items).mp sorted slot member) removed)
  | _ => cases done

theorem to_table_sorted (value : Value) (sorted : value.Sorted) :
    (table value.toTable.entries).Sorted := by
  cases value with
  | table entries => exact sorted
  | _ => exact ⟨List.Pairwise.nil, trivial⟩

end Value

inductive Table.Built : Table → Prop where
  | empty : Built .empty
  | set (table : Table) (key : Text) (item : Flagged Value) (before : Built table)
      (fresh : item.value.Sorted) : Built (table.set key item)
  | insert (table : Table) (path : Text) (item : Flagged Value) (before : Built table)
      (fresh : item.value.Sorted) : Built (table.insert path item).1
  | erase (table : Table) (path : Text) (before : Built table) : Built (table.erase path).1

theorem Table.built_sorted (table : Table) (built : table.Built) :
    (Value.table table.entries).Sorted := by
  induction built with
  | empty => exact ⟨List.Pairwise.nil, trivial⟩
  | set table key item _ fresh ih => exact Value.put_sorted key item table.entries ih fresh
  | insert table path item _ fresh ih =>
    rw [insert]
    split
    · exact ih
    · exact Value.to_table_sorted _ (Value.place_sorted path item fresh _ _ _ ih)
  | erase table path _ ih =>
    rw [erase]
    split
    · exact ih
    · split
      · exact ih
      · rename_i removed
        exact Value.to_table_sorted _ (Value.remove_sorted _ _ _ _ ih removed)

end ParamStore

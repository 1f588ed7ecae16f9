import ParamStore.Proofs.EncodeGrowth

set_option autoImplicit false

namespace ParamStore
namespace Value

mutual
def cell : Value → Cell
  | .nil => .nil
  | .bool value => .of .bool (encodeBool value)
  | .number value => .of (.ofNumber value.kind) value.text
  | .complex re im => .of .complex (Complex.join re.text im.text)
  | .string text => .of .string text
  | .sequence items => .sequence (itemCells items)
  | .table entries => .table (content .empty entries).identifier
def itemCells : List (Flagged Value) → List Cell
  | [] => []
  | ⟨_, value⟩ :: tail => value.cell :: itemCells tail
def content (before : Entries) : List (Text × Flagged Value) → Entries
  | [] => before
  | (key, ⟨_, value⟩) :: tail => content (before.put key value.cell) tail
end

mutual
def nested : Value → List Entries
  | .sequence items => itemsNested items
  | .table entries => entriesNested entries ++ [content .empty entries]
  | _ => []
def itemsNested : List (Flagged Value) → List Entries
  | [] => []
  | ⟨_, value⟩ :: tail => value.nested ++ itemsNested tail
def entriesNested : List (Text × Flagged Value) → List Entries
  | [] => []
  | (_, ⟨_, value⟩) :: tail => value.nested ++ entriesNested tail
end

mutual
def Plain : Value → Prop
  | .sequence items => ItemsPlain items
  | .table entries => Keyed.Ordered entries ∧ EntriesPlain entries
  | _ => True
def ItemsPlain : List (Flagged Value) → Prop
  | [] => True
  | ⟨inProlog, value⟩ :: tail => inProlog = false ∧ value.Plain ∧ ItemsPlain tail
def EntriesPlain : List (Text × Flagged Value) → Prop
  | [] => True
  | (key, ⟨inProlog, value⟩) :: tail =>
    key.isKey = true ∧ inProlog = false ∧ value.Plain ∧ EntriesPlain tail
end

theorem items_plain (items : List (Flagged Value)) (plain : ItemsPlain items)
    (item : Flagged Value) (member : item ∈ items) : item.value.Plain := by
  induction items with
  | nil => cases member
  | cons first tail ih =>
    rcases List.mem_cons.mp member with rfl | later
    · exact plain.2.1
    · exact ih plain.2.2 later

theorem entries_plain (entries : List (Text × Flagged Value)) (plain : EntriesPlain entries)
    (entry : Text × Flagged Value) (member : entry ∈ entries) : entry.2.value.Plain := by
  induction entries with
  | nil => cases member
  | cons first tail ih =>
    rcases List.mem_cons.mp member with rfl | later
    · exact plain.2.2.1
    · exact ih plain.2.2.2 later

theorem items_nested (items : List (Flagged Value)) (item : Flagged Value) (member : item ∈ items) :
    item.value.nested ⊆ itemsNested items := by
  induction items with
  | nil => cases member
  | cons first tail ih =>
    rcases List.mem_cons.mp member with rfl | later
    · exact List.subset_append_left _ _
    · exact List.Subset.trans (ih later) (List.subset_append_right _ _)

theorem entries_nested (entries : List (Text × Flagged Value)) (entry : Text × Flagged Value)
    (member : entry ∈ entries) : entry.2.value.nested ⊆ entriesNested entries := by
  induction entries with
  | nil => cases member
  | cons first tail ih =>
    rcases List.mem_cons.mp member with rfl | later
    · exact List.subset_append_left _ _
    · exact List.Subset.trans (ih later) (List.subset_append_right _ _)

theorem item_cells_map (items : List (Flagged Value)) :
    itemCells items = items.map fun item => item.value.cell := by
  induction items with
  | nil => rfl
  | cons item tail ih => rw [itemCells, ih, List.map_cons]

theorem item_cells_get (items : List (Flagged Value)) (place : Nat) :
    (itemCells items)[place]? = items[place]?.map fun item => item.value.cell := by
  rw [item_cells_map, List.getElem?_map]

theorem content_lookup (before : Entries) (entries : List (Text × Flagged Value))
    (ordered : Keyed.Ordered entries) (query : Text) :
    (content before entries).lookup query =
      match Keyed.lookup query entries with
      | some item => some item.value.cell
      | none => before.lookup query := by
  induction entries generalizing before with
  | nil => rfl
  | cons entry tail ih =>
    obtain ⟨key, item⟩ := entry
    have later := ih (before.put key item.value.cell) (Keyed.ordered_tail key item tail ordered)
    rw [content, later]
    by_cases same : query = key
    · subst same
      have absent := Keyed.ordered_head query item tail ordered
      simp [Keyed.lookup, absent, Entries.lookup, Entries.put, Keyed.lookup_put]
    · simp [Keyed.lookup, same, Entries.lookup, Entries.put, Keyed.lookup_put]

end Value

def Entries.Apart (contents : List Entries) : Prop :=
  ∀ entries ∈ contents, ∀ other ∈ contents, entries.identifier = other.identifier → entries = other

theorem Entries.apart_subset (contents others : List Entries) (apart : Apart others)
    (known : contents ⊆ others) : Apart contents :=
  fun entries member other present => apart entries (known member) other (known present)

theorem Entries.apart_split (first second third fourth : List Entries)
    (apart : Apart ((first ++ second) ++ (third ++ fourth))) :
    Apart (first ++ third) ∧ Apart (second ++ fourth) := by
  refine ⟨apart_subset _ _ apart fun entries member => ?_,
    apart_subset _ _ apart fun entries member => ?_⟩
  · simp only [List.mem_append] at member ⊢
    exact member.imp .inl .inl
  · simp only [List.mem_append] at member ⊢
    exact member.imp .inr .inr

instance (contents : List Entries) : Decidable (Entries.Apart contents) :=
  inferInstanceAs (Decidable (∀ entries ∈ contents, ∀ other ∈ contents, _ → _))

namespace Store

def Within (store : Store) (contents : List Entries) : Prop :=
  ∀ id entries, store.lookup id = some entries → id = entries.identifier ∧ entries ∈ contents

theorem intern_within (store : Store) (contents : List Entries) (apart : Entries.Apart contents)
    (within : store.Within contents) (entries : Entries) (member : entries ∈ contents) :
    (store.intern entries).2.Within contents ∧
      (store.intern entries).2.lookup entries.identifier = some entries := by
  cases taken : store.lookup entries.identifier with
  | none =>
    have free : store.contains entries.identifier = false := by simp [contains, taken]
    constructor
    · intro id found stored
      rw [intern, lookup_insert] at stored
      by_cases same : id = entries.identifier
      · rw [if_pos ⟨same, free⟩] at stored
        cases stored
        exact ⟨same, member⟩
      · rw [if_neg fun both => same both.1] at stored
        exact within id found stored
    · rw [intern, lookup_insert, if_pos ⟨rfl, free⟩]
  | some stored =>
    obtain ⟨named, known⟩ := within _ stored taken
    have same : entries = stored := apart entries member stored known named
    have present : store.contains entries.identifier = true := by simp [contains, taken]
    have unchanged : (store.intern entries).2 = store := by simp [intern, insert, present]
    rw [unchanged]
    exact ⟨within, same ▸ taken⟩

end Store

-- What was stored stays. These contents are stored as well, each under an identifier that no other of
-- the contents has.
structure Store.Stores (nested : List Entries) (before after : Store) : Prop where
  keeps : Keeps before after
  stored : ∀ contents, Entries.Apart contents → before.Within contents → nested ⊆ contents →
    after.Within contents ∧ ∀ entries ∈ nested, after.lookup entries.identifier = some entries

theorem Store.stores_nothing (store : Store) : Stores [] store store := by
  refine ⟨keeps_refl store, fun contents _ within _ => ⟨within, ?_⟩⟩
  rintro _ ⟨⟩

theorem Store.stores_append (first second : List Entries) (before middle after : Store)
    (early : Stores first before middle) (late : Stores second middle after) :
    Stores (first ++ second) before after := by
  refine ⟨keeps_trans before middle after early.keeps late.keeps, ?_⟩
  intro contents apart within known
  have firstKnown : first ⊆ contents := List.Subset.trans (List.subset_append_left _ _) known
  have secondKnown : second ⊆ contents := List.Subset.trans (List.subset_append_right _ _) known
  obtain ⟨middleWithin, firstStored⟩ := early.stored contents apart within firstKnown
  obtain ⟨afterWithin, secondStored⟩ := late.stored contents apart middleWithin secondKnown
  refine ⟨afterWithin, fun entries member => ?_⟩
  rcases List.mem_append.mp member with old | fresh
  · exact late.keeps _ _ (firstStored entries old)
  · exact secondStored entries fresh

theorem Store.stores_intern (store : Store) (entries : Entries) :
    Stores [entries] store (store.intern entries).2 := by
  refine ⟨insert_keeps store entries.identifier entries, fun contents apart within known => ?_⟩
  have member : entries ∈ contents := known (List.mem_singleton_self entries)
  obtain ⟨after, found⟩ := intern_within store contents apart within entries member
  refine ⟨after, fun other same => ?_⟩
  rw [List.mem_singleton.mp same]
  exact found

-- What encoding comes to: it succeeds with one result, whose tables are stored, and stores the tables
-- inside it.
structure Encoded {α : Type} (tables : α → List Identifier) (nested : List Entries) (result : α)
    (before : Store) (made : Progress × Except Error α) : Prop where
  outcome : made.2 = .ok result
  stores : Store.Stores nested before made.1.store
  holds : made.1.store.Holds (tables result)

namespace Value

theorem encoded_plain (before : Progress) (cell : Cell) (none : cell.tables = []) :
    Encoded Cell.tables [] cell before.store (before, .ok cell) := by
  refine ⟨rfl, Store.stores_nothing _, ?_⟩
  rw [none]
  rintro _ ⟨⟩

mutual
theorem encode_cell (value : Value) (before : Progress) (plain : value.Plain) :
    Encoded Cell.tables value.nested value.cell before.store (value.encode before) := by
  cases value with
  | nil => exact encoded_plain before .nil rfl
  | bool value => exact encoded_plain before (cell (.bool value)) rfl
  | number value => exact encoded_plain before (cell (.number value)) rfl
  | complex re im => exact encoded_plain before (cell (.complex re im)) rfl
  | string text => exact encoded_plain before (cell (.string text)) rfl
  | sequence items =>
    obtain ⟨outcome, stores, holds⟩ := encode_items_cells items before plain
    rw [encode]
    refine ⟨?_, stores, holds⟩
    simp only [outcome, cell]
    rfl
  | table entries =>
    have none : before.store.Holds Entries.empty.tables := by rintro _ ⟨⟩
    have inside := encode_entries_content .empty entries before plain.2 none
    rw [encode]
    generalize encodeEntries .empty entries before = made at inside
    obtain ⟨last, outcome⟩ := made
    obtain ⟨done, stores, holds⟩ := inside
    cases done
    refine ⟨rfl, ?_, ?_⟩
    · rw [nested]
      exact Store.stores_append _ _ _ _ _ stores (Store.stores_intern last.store _)
    · intro id named
      rw [List.mem_singleton.mp named]
      exact Store.insert_contains last.store _ _
theorem encode_items_cells (items : List (Flagged Value)) (before : Progress)
    (plain : ItemsPlain items) :
    Encoded Cell.itemTables (itemsNested items) (itemCells items) before.store
      (encodeItems items before) := by
  match items with
  | [] => exact ⟨rfl, Store.stores_nothing _, by rintro _ ⟨⟩⟩
  | ⟨_, value⟩ :: tail =>
    have first := encode_cell value before plain.2.1
    rw [encodeItems]
    generalize value.encode before = made at first
    obtain ⟨next, outcome⟩ := made
    obtain ⟨done, stores, holds⟩ := first
    cases done
    have rest := encode_items_cells tail next plain.2.2
    refine ⟨?_, Store.stores_append _ _ _ _ _ stores rest.stores, ?_⟩
    · simp only [rest.outcome, itemCells]
      rfl
    · have kept := Store.keeps_holds _ _ rest.stores.keeps _ holds
      exact (Store.holds_append _ _ _).mpr ⟨kept, rest.holds⟩
theorem encode_entries_content (kept : Entries) (entries : List (Text × Flagged Value))
    (before : Progress) (plain : EntriesPlain entries) (held : before.store.Holds kept.tables) :
    Encoded Entries.tables (entriesNested entries) (content kept entries) before.store
      (encodeEntries kept entries before) := by
  match entries with
  | [] => exact ⟨rfl, Store.stores_nothing _, held⟩
  | (key, ⟨inProlog, value⟩) :: tail =>
    obtain ⟨valid, unflagged, plainValue, plainTail⟩ := plain
    have first := encode_cell value before plainValue
    rw [encodeEntries, unflagged]
    generalize value.encode before = made at first
    obtain ⟨next, outcome⟩ := made
    obtain ⟨done, stores, holds⟩ := first
    cases done
    have old := Store.keeps_holds _ _ stores.keeps _ held
    have inserted : kept.insert next.store key value.cell = .ok (kept.put key value.cell) :=
      (Entries.insert_ok _ _ _ _ _).mpr ⟨valid, holds, rfl⟩
    have rest := encode_entries_content (kept.put key value.cell) tail next plainTail
      (Store.holds_put next.store kept key value.cell old holds)
    simp only [inserted]
    exact ⟨rest.outcome, Store.stores_append _ _ _ _ _ stores rest.stores, rest.holds⟩
end

end Value
end ParamStore

import ParamStore.Proofs.FilledTables
import ParamStore.Proofs.MaterializeDocument
import ParamStore.Proofs.MaterializeFind
import ParamStore.Proofs.PathTexts

set_option autoImplicit false

namespace ParamStore
namespace Value

theorem content_put (entries : List (Text × Flagged Value)) (ordered : Keyed.Ordered entries)
    (key : Text) (item : Flagged Value) :
    content .empty (Keyed.put key item entries) = (content .empty entries).put key item.value.cell := by
  refine Entries.eq_of_cells _ _ (Keyed.ordered_ext _ _ (Entries.ordered _) (Entries.ordered _) ?_)
  intro query
  have first := content_lookup .empty (Keyed.put key item entries)
    (Keyed.ordered_put key item entries ordered) query
  have second := content_lookup .empty entries ordered query
  rw [Keyed.lookup_put] at first
  change Entries.lookup _ query = Entries.lookup _ query
  rw [first, Entries.lookup_put, second]
  by_cases same : query = key <;> simp [same]

def Clear (item : Flagged Value) : Prop := item.inProlog = false ∧ item.value.Plain

theorem items_plain_iff (items : List (Flagged Value)) :
    ItemsPlain items ↔ ∀ item ∈ items, Clear item := by
  induction items with
  | nil => simp [ItemsPlain]
  | cons item tail ih => simp [ItemsPlain, Clear, ih, and_assoc]

theorem lookup_clear (entries : List (Text × Flagged Value)) (plain : (table entries).Plain)
    (key : Text) (item : Flagged Value) (found : Keyed.lookup key entries = some item) : Clear item :=
  ((entries_plain_iff entries).mp plain.2 _ (Keyed.lookup_mem key item entries found)).2

theorem put_plain (entries : List (Text × Flagged Value)) (plain : (table entries).Plain) (key : Text)
    (valid : key.isKey = true) (item : Flagged Value) (fresh : Clear item) :
    (table (Keyed.put key item entries)).Plain := by
  refine ⟨Keyed.ordered_put key item entries plain.1, (entries_plain_iff _).mpr ?_⟩
  intro entry member
  rcases Keyed.mem_put key item entries entry member with rfl | old
  · exact ⟨valid, fresh⟩
  · exact (entries_plain_iff entries).mp plain.2 entry old

theorem update_plain (items : List (Flagged Value)) (plain : (sequence items).Plain) (index : Nat)
    (item : Flagged Value) (fresh : Clear item) :
    (sequence (if index = items.length then items ++ [item] else items.set index item)).Plain := by
  refine (items_plain_iff _).mpr fun other member => ?_
  split at member
  · rcases List.mem_append.mp member with old | last
    · exact (items_plain_iff items).mp plain other old
    · exact List.mem_singleton.mp last ▸ fresh
  · rcases List.mem_or_eq_of_mem_set member with old | rfl
    · exact (items_plain_iff items).mp plain other old
    · exact fresh

theorem update_cells (items : List (Flagged Value)) (index : Nat) (item : Flagged Value) :
    itemCells (if index = items.length then items ++ [item] else items.set index item) =
      if index = (itemCells items).length then itemCells items ++ [item.value.cell]
      else (itemCells items).set index item.value.cell := by
  simp only [item_cells_map, List.length_map]
  split <;> simp [List.map_set]

theorem empty_for_plain (segment : Segment) : (emptyFor segment).Plain := by
  cases segment with
  | key name => exact ⟨List.Pairwise.nil, trivial⟩
  | index place => trivial

-- What a slot holds for the store: items that a set may take over, their tables stored.
def Kept (store : Store) (slot : Option (Flagged Value)) : Prop :=
  ∀ old, slot = some old → Clear old ∧ old.value.StoredIn store

theorem lookup_kept (store : Store) (entries : List (Text × Flagged Value))
    (plain : (table entries).Plain)
    (stored : ∀ inner ∈ entriesNested entries, store.lookup inner.identifier = some inner)
    (key : Text) : Kept store (Keyed.lookup key entries) := fun old found =>
  ⟨lookup_clear entries plain key old found, member_stored store entries key old found stored⟩

theorem item_kept (store : Store) (items : List (Flagged Value)) (plain : (sequence items).Plain)
    (stored : ∀ inner ∈ itemsNested items, store.lookup inner.identifier = some inner)
    (index : Nat) : Kept store items[index]? := by
  intro old found
  have member := List.mem_of_getElem? found
  exact ⟨(items_plain_iff items).mp plain old member, fun inner inside =>
    stored inner (items_nested items old member inside)⟩

theorem content_slot (entries : List (Text × Flagged Value)) (ordered : Keyed.Ordered entries)
    (key : Text) : (content .empty entries).lookup key =
      (Keyed.lookup key entries).map fun item => item.value.cell := by
  rw [content_lookup .empty entries ordered]
  cases Keyed.lookup key entries <;> rfl

theorem table_at_slot (store : Store) (path key : Text) (item : Flagged Value)
    (slot : Option (Flagged Value)) (kept : Kept store slot) (entries : List (Text × Flagged Value))
    (found : (slot.getD ⟨item.inProlog, emptyFor (.key key)⟩).value = .table entries) :
    store.tableAt path (.key key) (slot.map fun old => old.value.cell) =
        .ok (content .empty entries) ∧
      ∀ inner ∈ entriesNested entries, store.lookup inner.identifier = some inner := by
  cases slot with
  | none =>
    cases found
    exact ⟨rfl, by simp [entriesNested]⟩
  | some old =>
    obtain ⟨flag, value⟩ := old
    cases found
    have stored := (kept _ rfl).2
    refine ⟨table_read store entries stored, fun inner inside => stored inner ?_⟩
    rw [nested]
    exact List.mem_append_left _ inside

theorem sequence_at_slot (store : Store) (path : Text) (index : Nat) (item : Flagged Value)
    (slot : Option (Flagged Value)) (kept : Kept store slot) (items : List (Flagged Value))
    (found : (slot.getD ⟨item.inProlog, emptyFor (.index index)⟩).value = .sequence items) :
    Store.sequenceAt path (.index index) (slot.map fun old => old.value.cell) =
        .ok (itemCells items) ∧
      ∀ inner ∈ itemsNested items, store.lookup inner.identifier = some inner := by
  cases slot with
  | none =>
    cases found
    exact ⟨rfl, by simp [itemsNested]⟩
  | some old =>
    obtain ⟨flag, value⟩ := old
    cases found
    exact ⟨rfl, (kept _ rfl).2⟩

theorem fill_encoded (store : Store) (path : Text) (item : Flagged Value) (fresh : Clear item)
    (segments : List Segment) (valid : ∀ segment ∈ segments, segment.Valid)
    (slot : Option (Flagged Value)) (kept : Kept store slot) (made : Flagged Value)
    (done : fill path item segments slot = (made, .ok ())) :
    Clear made ∧ ∃ filled, Store.place path true item.value.cell segments
      (slot.map fun old => old.value.cell) store = .ok (made.value.cell, filled) := by
  induction segments generalizing slot made with
  | nil =>
    cases done
    exact ⟨fresh, store, by simp [Store.place]⟩
  | cons next rest ih =>
    obtain ⟨here, behind⟩ := List.forall_mem_cons.mp valid
    have oldClear : Clear (slot.getD ⟨item.inProlog, emptyFor next⟩) := by
      cases slot with
      | none => exact ⟨fresh.1, empty_for_plain next⟩
      | some old => exact (kept old rfl).1
    obtain ⟨unflagged, plain⟩ := oldClear
    obtain ⟨changed, placed, rfl⟩ := fill_step path item next rest slot made done
    rcases place_cases path item rest next _ changed placed with
      ⟨key, entries, inner, rfl, isTable, innerDone, rfl⟩ |
      ⟨index, items, inner, rfl, isSequence, innerDone, bound, rfl⟩
    · obtain ⟨reached, stored⟩ := table_at_slot store path key item slot kept entries isTable
      rw [isTable] at plain
      obtain ⟨innerClear, filled, below⟩ := ih behind (Keyed.lookup key entries)
        (lookup_kept store entries plain stored key) inner innerDone
      rw [← content_slot entries plain.1] at below
      refine ⟨⟨unflagged, put_plain entries plain key here inner innerClear⟩, ?_⟩
      rw [cell, content_put entries plain.1]
      exact ⟨_, Store.key_placed path true item.value.cell key rest _ store _ _ filled reached below⟩
    · obtain ⟨reached, stored⟩ := sequence_at_slot store path index item slot kept items isSequence
      rw [isSequence] at plain
      obtain ⟨innerClear, filled, below⟩ := ih behind items[index]? (item_kept store items plain stored index)
        inner innerDone
      rw [← item_cells_get] at below
      refine ⟨⟨unflagged, update_plain items plain index inner innerClear⟩, filled, ?_⟩
      rw [cell, update_cells]
      exact Store.index_placed path true item.value.cell index rest _ store _ _ filled reached
        (by rwa [item_cells_map, List.length_map]) below

end Value

theorem ParameterSet.place_edited (store : Store) (table edited : Table)
    (plain : (Value.table table.entries).Plain)
    (stored : ∀ inner ∈ Value.entriesNested table.entries, store.lookup inner.identifier = some inner)
    (path : Text) (item : Flagged Value) (fresh : Value.Clear item)
    (done : table.insert path item = (edited, .ok ())) (set : ParameterSet)
    (same : set.entries = Value.content .empty table.entries) :
    (Value.table edited.entries).Plain ∧
      ∃ filled, set.place store path true item.value.cell =
        .ok (set.withEntries (Value.content .empty edited.entries), filled) := by
  obtain ⟨parsed, made, read, filled, rfl⟩ := table.insert_ok edited path item done
  obtain ⟨root, rest⟩ := List.forall_mem_cons.mp (Path.read_valid path parsed read)
  obtain ⟨clear, last, placed⟩ := Value.fill_encoded store path item fresh parsed.rest rest _
    (Value.lookup_kept store table.entries plain stored parsed.root) made filled
  rw [← Value.content_slot table.entries plain.1, ← same] at placed
  refine ⟨Value.put_plain table.entries plain parsed.root root made clear, last, ?_⟩
  rw [Table.set, Value.content_put table.entries plain.1, ← same]
  simp only [ParameterSet.place, read, placed, bind, Except.bind]
  rfl

namespace Session

-- Anything may be stored between the edits, as long as the tables inside the value are; encoding the
-- value stores them.
theorem insert_materialize (session : Session) (reachable : session.Reachable) (store : Text)
    (home : Nat) (named : session.handles.lookup store = some home) (table : Table)
    (plain : (Value.table table.entries).Plain) (path : Text) (value : Value)
    (valuePlain : value.Plain) (edited : Table)
    (done : table.insert path ⟨false, value⟩ = (edited, .ok ()))
    (apart : Entries.Apart ((session.depot.store home).contents.map Prod.snd ++
      Value.entriesNested table.entries)) :
    ∃ depot set cell encoded, table.materialize session.depot home = (depot, .ok set) ∧
      value.encode (.start (depot.store home)) = (encoded, .ok cell) ∧
      (∀ before, (value.encode before).2 = .ok cell) ∧
      Depot.Grows depot (depot.setStore home encoded.store) ∧
      ((depot.setStore home encoded.store).store home).Holds cell.tables ∧
      ∀ later, Depot.Grows depot later → (later.store home).Holds cell.tables →
        ∃ changed after, set.put later .cell path true cell = ((changed, after), .ok ()) ∧
          ∀ other number, ∃ filled copy, edited.materialize other number = (filled, .ok copy) ∧
            changed.sameContent copy = true ∧ changed.id = copy.id := by
  have sound := reachable_sound session reachable
  have inside := sound.handles store home named
  obtain ⟨depot, made, grows, _, stores, _⟩ :=
    table.materialize_plain plain.2 session.depot sound.depot home inside
  have within := Store.grown_within (session.depot.store home) (sound.depot home) _
    (List.subset_append_left _ (Value.entriesNested table.entries))
  have stored := (stores.stored _ apart within (List.subset_append_right _ _)).2
  have depotSound := Depot.grows_sound _ _ grows
  have wide := Nat.lt_of_lt_of_le inside grows.count
  have encoding := Value.encode_cell value (.start (depot.store home)) valuePlain
  have settled := Value.encode_settled value (.start (depot.store home)) (depotSound home)
  refine ⟨depot, _, value.cell, (value.encode (.start (depot.store home))).1, made,
    Prod.ext rfl encoding.outcome, fun before => (Value.encode_cell value before valuePlain).outcome,
    Depot.set_store_grows depot depotSound home _ wide settled.grows, ?_, ?_⟩
  · rw [Depot.store_set_store depot home home _ wide, if_pos rfl]
    exact encoding.holds
  · intro later laterGrows held
    have keeps := (laterGrows.stores home).keeps
    obtain ⟨editedPlain, filled, placed⟩ := ParameterSet.place_edited (later.store home) table edited
      plain (fun inner member => keeps _ _ (stored inner member)) path ⟨false, value⟩ ⟨rfl, valuePlain⟩
      done ⟨home, Value.content .empty table.entries, none⟩ rfl
    have checked := (Store.check_tables_iff (later.store home) value.cell).mpr held
    refine ⟨⟨home, Value.content .empty edited.entries, none⟩, later.setStore home filled, ?_,
      fun other number => ?_⟩
    · simp only [ParameterSet.put, Ty.encode, checked, Except.map, placed]
      rfl
    · refine ⟨_, _, Prod.ext rfl (edited.materialize_outcome editedPlain.2 other number), ?_, rfl⟩
      exact beq_self_eq_true _

theorem insert_materialize_created :
    stocked.Reachable ∧ stocked.handles.lookup ['r'] = some 0 ∧
      (Value.table nestedTable.entries).Plain ∧ (Value.table [(['e'], ⟨false, .nil⟩)]).Plain ∧
      Entries.Apart ((stocked.depot.store 0).contents.map Prod.snd ++
        Value.entriesNested nestedTable.entries) ∧
      ∃ edited, nestedTable.insert ['s', '[', '1', ']', '.', 'd', '[', '0', ']']
          ⟨false, .table [(['e'], ⟨false, .nil⟩)]⟩ = (edited, .ok ()) ∧
        ∃ depot set cell filled changed after copy,
          nestedTable.materialize stocked.depot 0 = (depot, .ok set) ∧
          set.put filled .cell ['s', '[', '1', ']', '.', 'd', '[', '0', ']'] true cell =
            ((changed, after), .ok ()) ∧
          (edited.materialize ⟨[.empty]⟩ 0).2 = .ok copy ∧ changed.sameContent copy = true ∧
          changed.id = copy.id := by
  have reachable : stocked.Reachable :=
    leads_run .empty .empty .refl _ (permits_plain _ _ (by simp [Operation.sets, Ty.setsIn]))
  have named : stocked.handles.lookup ['r'] = some 0 := by decide +kernel
  have valuePlain : (Value.table [(['e'], ⟨false, .nil⟩)]).Plain :=
    ⟨by decide, by decide, rfl, trivial, trivial⟩
  have plain : (Value.table nestedTable.entries).Plain :=
    ⟨by decide, by decide, rfl, ⟨by decide, by decide, rfl, trivial, trivial⟩, by decide, rfl,
      ⟨rfl, trivial, rfl, ⟨by decide, by decide, rfl, trivial, trivial⟩, trivial⟩, trivial⟩
  have apart : Entries.Apart ((stocked.depot.store 0).contents.map Prod.snd ++
      Value.entriesNested nestedTable.entries) := by decide +kernel
  obtain ⟨edited, done⟩ : ∃ edited, nestedTable.insert ['s', '[', '1', ']', '.', 'd', '[', '0', ']']
      ⟨false, .table [(['e'], ⟨false, .nil⟩)]⟩ = (edited, .ok ()) :=
    ⟨_, Prod.ext rfl (by with_unfolding_all rfl)⟩
  obtain ⟨depot, set, cell, encoded, made, _, _, grows, holds, each⟩ :=
    insert_materialize stocked reachable ['r'] 0 named nestedTable plain _ _ valuePlain edited done apart
  obtain ⟨changed, after, put, copies⟩ := each _ grows holds
  obtain ⟨_, copy, again, same, ids⟩ := copies ⟨[.empty]⟩ 0
  exact ⟨reachable, named, plain, valuePlain, apart, edited, done, depot, set, cell, _, changed, after,
    copy, made, put, congrArg Prod.snd again, same, ids⟩

end Session
end ParamStore

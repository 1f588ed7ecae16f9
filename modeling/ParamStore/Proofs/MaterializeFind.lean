import ParamStore.Proofs.EncodeCells
import ParamStore.Proofs.SessionRuns

set_option autoImplicit false

namespace ParamStore

-- How the answers of a table and of its set correspond at a path: values with their cells, missing
-- parts, and parts of the wrong shape.
inductive Mirrors (path : Text) : Except Error (Flagged Value) → Except Error Cell → Prop where
  | found (item : Flagged Value) (plain : item.value.Plain) :
      Mirrors path (.ok item) (.ok item.value.cell)
  | missing (key : Text) : Mirrors path (.error (.cantFind key)) (.error (.cantFind path))
  | mismatch (cause other : Mismatch) :
      Mirrors path (.error (.typeMismatch cause)) (.error (.typeMismatch other))

namespace Value

def StoredIn (store : Store) (value : Value) : Prop :=
  ∀ entries ∈ value.nested, store.lookup entries.identifier = some entries

theorem table_read (store : Store) (entries : List (Text × Flagged Value))
    (stored : StoredIn store (.table entries)) :
    store.entries (content .empty entries).identifier = .ok (content .empty entries) := by
  have member : content .empty entries ∈ nested (.table entries) := by
    rw [nested]
    exact List.mem_append_right _ (List.mem_singleton_self _)
  rw [Store.entries, stored _ member]

theorem member_stored (store : Store) (entries : List (Text × Flagged Value)) (key : Text)
    (item : Flagged Value) (found : Keyed.lookup key entries = some item)
    (stored : ∀ inner ∈ entriesNested entries, store.lookup inner.identifier = some inner) :
    item.value.StoredIn store := by
  have member := Keyed.lookup_mem key item entries found
  exact fun inner inside => stored inner (entries_nested entries (key, item) member inside)

theorem step_stored (store : Store) (entries : List (Text × Flagged Value)) (key : Text)
    (item : Flagged Value) (found : Keyed.lookup key entries = some item)
    (stored : StoredIn store (.table entries)) : item.value.StoredIn store := by
  refine member_stored store entries key item found fun inner inside => stored inner ?_
  rw [nested]
  exact List.mem_append_left _ inside

section Follow

variable (store : Store) (path : Text) (rest : List Segment)
  (each : ∀ item : Flagged Value, item.value.Plain → item.value.StoredIn store →
    Mirrors path (Value.follow rest item) (store.follow path rest item.value.cell))
include each

theorem follow_entry_mirrors (name : Text) (flag : Bool) (entries : List (Text × Flagged Value))
    (plain : (Value.table entries).Plain) (stored : (Value.table entries).StoredIn store) :
    Mirrors path (Value.follow (.key name :: rest) ⟨flag, .table entries⟩)
      (store.follow path (.key name :: rest) (Value.table entries).cell) := by
  have read := table_read store entries stored
  have same := content_lookup .empty entries plain.1 name
  cases found : Keyed.lookup name entries with
  | none =>
    have absent : (content .empty entries).lookup name = none := by
      rw [same, found]
      rfl
    simp only [Value.follow, step, member, found, cell, Store.follow, read, absent, bind,
      Except.bind]
    exact .missing name
  | some inner =>
    have present : (content .empty entries).lookup name = some inner.value.cell := by
      rw [same, found]
    have innerPlain := entries_plain entries plain.2 _ (Keyed.lookup_mem name inner entries found)
    have next := each inner innerPlain (step_stored store entries name inner found stored)
    simpa only [Value.follow, step, member, found, cell, Store.follow, read, present, bind,
      Except.bind] using next

theorem follow_item_mirrors (place : Nat) (flag : Bool) (items : List (Flagged Value))
    (plain : (Value.sequence items).Plain) (stored : (Value.sequence items).StoredIn store) :
    Mirrors path (Value.follow (.index place :: rest) ⟨flag, .sequence items⟩)
      (store.follow path (.index place :: rest) (Value.sequence items).cell) := by
  have same := item_cells_get items place
  cases found : items[place]? with
  | none =>
    rw [found] at same
    simp only [Value.follow, step, element, found, cell, Store.follow, same, Option.map_none,
      bind, Except.bind]
    exact .missing _
  | some inner =>
    rw [found] at same
    have member := List.mem_of_getElem? found
    have innerStored : inner.value.StoredIn store := fun entries inside =>
      stored entries (items_nested items inner member inside)
    have next := each inner (items_plain items plain inner member) innerStored
    simpa only [Value.follow, step, element, found, cell, Store.follow, same, Option.map_some,
      bind, Except.bind] using next

end Follow

theorem follow_mirrors (store : Store) (path : Text) (segments : List Segment)
    (item : Flagged Value) (plain : item.value.Plain) (stored : item.value.StoredIn store) :
    Mirrors path (Value.follow segments item) (store.follow path segments item.value.cell) := by
  induction segments generalizing item with
  | nil => exact .found item plain
  | cons segment rest ih =>
    obtain ⟨flag, value⟩ := item
    cases segment with
    | key name =>
      cases value with
      | table entries => exact follow_entry_mirrors store path rest ih name flag entries plain stored
      | nil | bool _ | number _ | complex _ _ | string _ | sequence _ => exact .mismatch _ _
    | index place =>
      cases value with
      | sequence items => exact follow_item_mirrors store path rest ih place flag items plain stored
      | nil | bool _ | number _ | complex _ _ | string _ | table _ => exact .mismatch _ _

end Value

theorem mirrors_at (path : Text) (answer : Except Error (Flagged Value)) (other : Except Error Cell)
    (mirrors : Mirrors path answer other) :
    Mirrors path (answer.mapError (Error.missingAt path)) other := by
  cases mirrors with
  | found item plain => exact .found item plain
  | missing key => exact .missing path
  | mismatch cause other => exact .mismatch cause other

theorem Path.read_error (text : Text) (error : Error) (failed : Path.read text = .error error) :
    ∃ fault, error = .typeMismatch (.malformedPath text fault) := by
  rw [Path.read] at failed
  cases parsed : Path.ofText? text with
  | ok path => simp [parsed] at failed
  | error fault =>
    refine ⟨fault, ?_⟩
    simpa [parsed, eq_comm] using failed

theorem find_missing (table : Table) (path key : Text)
    (missing : table.find path = .error (.cantFind key)) : key = path := by
  rw [Table.find] at missing
  cases read : Path.read path with
  | error error =>
    obtain ⟨fault, rfl⟩ := Path.read_error path error read
    simp [read, bind, Except.bind] at missing
  | ok parsed =>
    simp only [read, bind, Except.bind] at missing
    obtain ⟨cause, _, renamed⟩ := (Outcome.map_error_error _ _ _).mp missing
    cases cause <;> simp_all [Error.missingAt]

theorem find_mirrors (table : Table) (plain : (Value.table table.entries).Plain) (store : Store)
    (stored : ∀ entries ∈ Value.entriesNested table.entries,
      store.lookup entries.identifier = some entries)
    (set : ParameterSet) (made : set.entries = Value.content .empty table.entries) (path : Text) :
    Mirrors path (table.find path) (set.find store path) := by
  rw [Table.find, ParameterSet.find]
  cases read : Path.read path with
  | error error =>
    obtain ⟨fault, rfl⟩ := Path.read_error path error read
    exact .mismatch _ _
  | ok parsed =>
    refine mirrors_at path _ _ ?_
    have same := Value.content_lookup .empty table.entries plain.1 parsed.root
    rw [← made] at same
    rw [Table.follow, Table.get?]
    cases found : Keyed.lookup parsed.root table.entries with
    | none =>
      rw [found] at same
      have absent : set.entries.lookup parsed.root = none := same
      simp only [absent, bind, Except.bind]
      exact .missing parsed.root
    | some item =>
      rw [found] at same
      have member := Keyed.lookup_mem parsed.root item table.entries found
      have itemPlain := Value.entries_plain table.entries plain.2 _ member
      have itemStored := Value.member_stored store table.entries parsed.root item found stored
      simp only [same, bind, Except.bind]
      exact Value.follow_mirrors store path parsed.rest item itemPlain itemStored

theorem mirrors_seen (path : Text) (answer : Except Error (Flagged Value)) (other : Except Error Cell)
    (mirrors : Mirrors path answer other)
    (named : ∀ key, answer = .error (.cantFind key) → key = path) :
    (∀ item, answer = .ok item → ∃ cell, other = .ok cell ∧
      ∀ before, (item.value.encode before).2 = .ok cell) ∧
    (∀ error, answer = .error error → ∃ found, other = .error found ∧ found.kind = error.kind ∧
      ∀ key, error = .cantFind key → found = .cantFind key) ∧
    other.isOk = answer.isOk := by
  cases mirrors with
  | found item plain =>
    refine ⟨?_, by rintro _ ⟨⟩, rfl⟩
    intro same equal
    cases equal
    exact ⟨_, rfl, fun before => (Value.encode_cell item.value before plain).outcome⟩
  | missing key =>
    refine ⟨by rintro _ ⟨⟩, ?_, rfl⟩
    intro error equal
    cases equal
    refine ⟨_, rfl, rfl, fun found same => ?_⟩
    rw [← same, named key rfl]
  | mismatch cause found =>
    refine ⟨by rintro _ ⟨⟩, ?_, rfl⟩
    intro error equal
    cases equal
    exact ⟨_, rfl, rfl, by rintro _ ⟨⟩⟩

namespace Session

theorem materialize_find (session : Session) (reachable : session.Reachable) (store : Text)
    (home : Nat) (named : session.handles.lookup store = some home) (table : Table)
    (plain : (Value.table table.entries).Plain)
    (apart : Entries.Apart ((session.depot.store home).contents.map Prod.snd ++
      Value.entriesNested table.entries)) :
    ∃ depot set, table.materialize session.depot home = (depot, .ok set) ∧ ∀ path,
      (∀ item, table.find path = .ok item → ∃ cell, set.find (depot.store set.home) path = .ok cell ∧
        ∀ before, (item.value.encode before).2 = .ok cell) ∧
      (∀ error, table.find path = .error error →
        ∃ other, set.find (depot.store set.home) path = .error other ∧ other.kind = error.kind ∧
          ∀ key, error = .cantFind key → other = .cantFind key) ∧
      set.contains (depot.store set.home) path = table.contains path := by
  have sound := reachable_sound session reachable
  have inside := sound.handles store home named
  have encoded := Value.encode_entries_content .empty table.entries
    (.start (session.depot.store home)) plain.2 (Entries.empty_tables _)
  have within : (session.depot.store home).Within ((session.depot.store home).contents.map Prod.snd ++
      Value.entriesNested table.entries) := by
    intro id entries found
    have grown := sound.depot home
    refine ⟨(Store.grown_lookup _ grown id entries found).1, List.mem_append_left _ ?_⟩
    exact List.mem_map.mpr ⟨(id, entries), (Store.grown_mem_iff _ grown id entries).mpr found, rfl⟩
  have stored := (encoded.stores.stored _ apart within (List.subset_append_right _ _)).2
  rw [Table.materialize]
  generalize Value.encodeEntries .empty table.entries (.start (session.depot.store home)) = made
    at encoded stored
  obtain ⟨last, outcome⟩ := made
  have done : outcome = .ok (Value.content .empty table.entries) := encoded.outcome
  refine ⟨_, _, by rw [done]; rfl, fun path => ?_⟩
  have here : (session.depot.setStore home last.store).store home = last.store := by
    rw [Depot.store_set_store _ home home _ inside, if_pos rfl]
  rw [here]
  exact mirrors_seen path _ _ (find_mirrors table plain last.store stored _ rfl path)
    (find_missing table path)

def nestedTable : Table :=
  ⟨[(['a'], ⟨false, .table [(['b'], ⟨false, .bool true⟩)]⟩),
    (['s'], ⟨false, .sequence [⟨false, .nil⟩, ⟨false, .table [(['c'], ⟨false, .nil⟩)]⟩]⟩)]⟩

def stocked : Session :=
  Session.empty.run [.openStore ['r'], .create ['p'] ['r'], .put ['p'] ['a', '.', 'b'] .bool true]

theorem materialize_find_nested :
    stocked.Reachable ∧ stocked.handles.lookup ['r'] = some 0 ∧
      (Value.table nestedTable.entries).Plain ∧
      Entries.Apart ((stocked.depot.store 0).contents.map Prod.snd ++
        Value.entriesNested nestedTable.entries) ∧
      ∃ depot set, nestedTable.materialize stocked.depot 0 = (depot, .ok set) ∧
        set.find (depot.store set.home) ['s', '[', '1', ']', '.', 'c'] = .ok .nil ∧
        set.find (depot.store set.home) ['a', '.', 'x'] = .error (.cantFind ['a', '.', 'x']) ∧
        set.contains (depot.store set.home) ['s', '.', 'c'] = false := by
  have reachable : stocked.Reachable :=
    leads_run .empty .empty .refl _ (permits_plain _ _ (by simp [Operation.sets, Ty.setsIn]))
  have named : stocked.handles.lookup ['r'] = some 0 := by decide +kernel
  have plain : (Value.table nestedTable.entries).Plain :=
    ⟨by decide, by decide, rfl, ⟨by decide, by decide, rfl, trivial, trivial⟩, by decide, rfl,
      ⟨rfl, trivial, rfl, ⟨by decide, by decide, rfl, trivial, trivial⟩, trivial⟩, trivial⟩
  have apart : Entries.Apart ((stocked.depot.store 0).contents.map Prod.snd ++
      Value.entriesNested nestedTable.entries) := by decide +kernel
  obtain ⟨depot, set, made, each⟩ := materialize_find stocked reachable ['r'] 0 named nestedTable
    plain apart
  refine ⟨reachable, named, plain, apart, depot, set, made, ?_, ?_, ?_⟩
  · obtain ⟨cell, found, encoded⟩ := (each ['s', '[', '1', ']', '.', 'c']).1 ⟨false, .nil⟩
      (by with_unfolding_all rfl)
    have same : (Except.ok .nil : Except Error Cell) = .ok cell := encoded (.start .empty)
    rw [found, ← same]
  · obtain ⟨other, found, _, missing⟩ := (each ['a', '.', 'x']).2.1 (.cantFind ['a', '.', 'x'])
      (by with_unfolding_all rfl)
    rw [found, missing _ rfl]
  · rw [(each ['s', '.', 'c']).2.2]
    decide +kernel

end Session
end ParamStore

import ParamStore.ParameterSet.Typed
import ParamStore.Proofs.EncodeGrowth

set_option autoImplicit false

namespace ParamStore

theorem Entries.empty_tables (store : Store) : store.Holds Entries.empty.tables := by
  rintro _ ⟨⟩

theorem ParameterSet.place_ok (set : ParameterSet) (store : Store) (path : Text) (overwrite : Bool)
    (cell : Cell) (changed : ParameterSet) (filled : Store)
    (done : set.place store path overwrite cell = .ok (changed, filled)) :
    ∃ parsed placed, Path.read path = .ok parsed ∧
      Store.place path overwrite cell parsed.rest (set.entries.lookup parsed.root) store =
        .ok (placed, filled) ∧
      changed = set.withEntries (set.entries.put parsed.root placed) := by
  simp only [place, Outcome.bind_ok] at done
  obtain ⟨parsed, read, ⟨placed, last⟩, below, result⟩ := done
  cases result
  exact ⟨parsed, placed, read, below, rfl⟩

namespace Depot

-- What a set relies on: its store exists and holds the tables it names, and an identifier that was
-- worked out is that of the entries it has now.
structure Backs (depot : Depot) (set : ParameterSet) : Prop where
  home : set.home < depot.stores.length
  tables : (depot.store set.home).Holds set.entries.tables
  known : ∀ id, set.known = some id → id = set.entries.identifier

def Sound (depot : Depot) : Prop := ∀ number, Store.Grown (depot.store number).contents

structure Grows (before after : Depot) : Prop where
  count : before.stores.length ≤ after.stores.length
  stores : ∀ number, Store.Grows (before.store number) (after.store number)

theorem grows_sound (before after : Depot) (grows : Grows before after) : after.Sound :=
  fun number => (grows.stores number).grown

theorem grows_refl (depot : Depot) (sound : depot.Sound) : Grows depot depot :=
  ⟨Nat.le_refl _, fun number => Store.grows_refl _ (sound number)⟩

theorem grows_trans (first second third : Depot) (early : Grows first second)
    (late : Grows second third) : Grows first third :=
  ⟨Nat.le_trans early.count late.count, fun number =>
    Store.grows_trans _ _ _ (early.stores number) (late.stores number)⟩

theorem grows_backs (before after : Depot) (grows : Grows before after) (set : ParameterSet)
    (backs : before.Backs set) : after.Backs set :=
  ⟨Nat.lt_of_lt_of_le backs.home grows.count,
    Store.keeps_holds _ _ (grows.stores set.home).keeps _ backs.tables, backs.known⟩

theorem store_set_store (depot : Depot) (number query : Nat) (store : Store)
    (inside : number < depot.stores.length) :
    (depot.setStore number store).store query =
      if query = number then store else depot.store query := by
  by_cases same : query = number
  · subst same
    simp [setStore, Depot.store, List.getD_eq_getElem?_getD, inside]
  · simp [setStore, Depot.store, List.getD_eq_getElem?_getD, same, Ne.symm same]

theorem set_store_grows (depot : Depot) (sound : depot.Sound) (number : Nat) (store : Store)
    (inside : number < depot.stores.length) (grows : Store.Grows (depot.store number) store) :
    Grows depot (depot.setStore number store) := by
  refine ⟨by simp [setStore], fun query => ?_⟩
  rw [store_set_store depot number query store inside]
  by_cases same : query = number
  · simpa [same] using grows
  · simpa [same] using Store.grows_refl _ (sound query)

theorem add_store_grows (depot : Depot) (sound : depot.Sound) : Grows depot depot.addStore.2 := by
  refine ⟨by simp [addStore], fun number => ?_⟩
  have same : depot.addStore.2.store number = depot.store number := by
    by_cases inside : number < depot.stores.length
    · simp [addStore, store, List.getElem?_append_left inside]
    · have bound := Nat.le_of_not_lt inside
      by_cases last : number = depot.stores.length
      · simp [addStore, store, last]
      · have above : (depot.stores ++ [Store.empty]).length ≤ number := by
          simp only [List.length_append, List.length_singleton]
          omega
        simp [addStore, store, List.getElem?_eq_none bound, List.getElem?_eq_none above]
  rw [same]
  exact Store.grows_refl _ (sound number)

theorem id_of_backs (depot : Depot) (set : ParameterSet) (backs : depot.Backs set) :
    set.id = set.entries.identifier := by
  rw [ParameterSet.id]
  cases known : set.known with
  | none => rfl
  | some id => exact backs.known id known

theorem identified_backs (depot : Depot) (set : ParameterSet) (backs : depot.Backs set) :
    depot.Backs set.identified := by
  refine ⟨backs.home, backs.tables, fun id known => ?_⟩
  rw [← Option.some.inj known]
  exact id_of_backs depot set backs

theorem with_entries_backs (depot : Depot) (set : ParameterSet) (entries : Entries)
    (home : set.home < depot.stores.length)
    (tables : (depot.store set.home).Holds entries.tables) :
    depot.Backs (set.withEntries entries) :=
  ⟨home, tables, by rintro _ ⟨⟩⟩

theorem put_grows (depot : Depot) (sound : depot.Sound) (target : Nat) (set : ParameterSet)
    (inside : target < depot.stores.length) (backs : depot.Backs set) :
    ∃ after, depot.put target set = .ok (set.id, after) ∧ Grows depot after ∧
      (after.store target).contains set.id = true := by
  unfold put
  have named := id_of_backs depot set backs
  cases taken : (depot.store target).contains set.id with
  | true => exact ⟨depot, by simp [taken], grows_refl depot sound, taken⟩
  | false =>
    -- Whatever the store became below the set, storing the set itself on top keeps it grown.
    have finish : ∀ filled, Store.Grows (depot.store target) filled →
        filled.Holds set.entries.tables →
        Grows depot (depot.setStore target (filled.insert set.id set.entries)) ∧
          ((depot.setStore target (filled.insert set.id set.entries)).store target).contains
            set.id = true := by
      intro filled grows holds
      rw [store_set_store depot target target _ inside, if_pos rfl, named]
      refine ⟨set_store_grows depot sound target _ inside ?_, Store.insert_contains _ _ _⟩
      exact Store.grows_trans _ _ _ grows (Store.insert_grows filled set.entries grows.grown holds)
    by_cases here : set.home = target
    · have done := finish (depot.store target) (Store.grows_refl _ (sound target))
        (here ▸ backs.tables)
      exact ⟨_, by simp [taken, here], done.1, done.2⟩
    · obtain ⟨filled, copied, grows, holds⟩ := Store.adopt_below_grows (depot.store set.home)
        (depot.store target) (sound set.home) (sound target) set.entries backs.tables
      have done := finish filled grows holds
      exact ⟨_, by simp [taken, here, copied, Functor.map, Except.map], done.1, done.2⟩

theorem fetch_backs (depot : Depot) (sound : depot.Sound) (source : Nat) (id : Identifier)
    (set : ParameterSet) (inside : source < depot.stores.length)
    (done : depot.fetch source id = .ok set) : depot.Backs set := by
  rw [fetch] at done
  obtain ⟨entries, read, made⟩ := (Outcome.bind_ok _ _ _).mp done
  cases made
  have found := (Store.entries_ok _ id entries).mp read
  refine ⟨inside, Store.grown_holds _ (sound source) id entries found, fun known worked => ?_⟩
  exact Option.some.inj worked ▸ (Store.grown_lookup _ (sound source) id entries found).1

theorem backs_slot (depot : Depot) (set : ParameterSet) (backs : depot.Backs set) (key : Text) :
    (depot.store set.home).HoldsSlot (set.entries.lookup key) :=
  fun found present id inside =>
    backs.tables id (Entries.lookup_tables set.entries key found present id inside)

theorem place_backs (depot : Depot) (sound : depot.Sound) (set changed : ParameterSet)
    (backs : depot.Backs set) (path : Text) (overwrite : Bool) (cell : Cell) (store : Store)
    (held : (depot.store set.home).Holds cell.tables)
    (done : set.place (depot.store set.home) path overwrite cell = .ok (changed, store)) :
    Grows depot (depot.setStore set.home store) ∧
      (depot.setStore set.home store).Backs changed := by
  obtain ⟨parsed, placed, _, below, rfl⟩ := set.place_ok _ path overwrite cell changed store done
  obtain ⟨grows, placedHeld⟩ := Store.place_grows path overwrite cell parsed.rest _ _
    (sound set.home) (backs_slot depot set backs parsed.root) held placed store below
  have after := set_store_grows depot sound set.home store backs.home grows
  refine ⟨after, with_entries_backs _ set _ (Nat.lt_of_lt_of_le backs.home after.count) ?_⟩
  rw [store_set_store depot set.home set.home store backs.home, if_pos rfl]
  exact Store.holds_put store set.entries parsed.root placed
    (Store.keeps_holds _ _ grows.keeps _ backs.tables) placedHeld

theorem insert_backs (depot : Depot) (set changed : ParameterSet) (backs : depot.Backs set)
    (key : Text) (cell : Cell)
    (done : set.insert (depot.store set.home) key cell = .ok changed) : depot.Backs changed := by
  obtain ⟨entries, inserted, rfl⟩ := (Outcome.map_ok _ _ _).mp done
  obtain ⟨_, fresh, rfl⟩ := (Entries.insert_ok _ _ _ _ _).mp inserted
  exact with_entries_backs depot set _ backs.home (Store.holds_put _ _ _ _ backs.tables fresh)

theorem erase_backs (depot : Depot) (set : ParameterSet) (backs : depot.Backs set) (key : Text) :
    depot.Backs (set.erase key).1 := by
  rw [ParameterSet.erase]
  split
  · exact with_entries_backs depot set _ backs.home
      fun id named => backs.tables id (Entries.remove_tables set.entries key id named)
  · exact backs

structure Made (before : Depot) (made : Depot × Except Error ParameterSet) : Prop where
  grows : Grows before made.1
  backs : ∀ set, made.2 = .ok set → made.1.Backs set

theorem settled_made (depot : Depot) (sound : depot.Sound) (home : Nat)
    (inside : home < depot.stores.length) (made : Progress × Except Error Entries)
    (settled : Settled Entries.tables (depot.store home) made) :
    Made depot (depot.setStore home made.1.store,
      made.2.map fun entries => ⟨home, entries, none⟩) := by
  have grows := set_store_grows depot sound home made.1.store inside settled.grows
  refine ⟨grows, fun set done => ?_⟩
  obtain ⟨entries, found, rfl⟩ := (Outcome.map_ok _ _ _).mp done
  refine ⟨Nat.lt_of_lt_of_le inside grows.count, ?_, by rintro _ ⟨⟩⟩
  rw [store_set_store depot home home _ inside, if_pos rfl]
  exact settled.holds entries found

theorem materialize_made (depot : Depot) (sound : depot.Sound) (home : Nat)
    (inside : home < depot.stores.length) (document : Document) :
    Made depot ((document.materialize depot home).1,
      (document.materialize depot home).2.map Prod.fst) := by
  have settled := encode_bindings_settled .empty document.bindings (.start (depot.store home))
    (sound home) (Entries.empty_tables _)
  have made := settled_made depot sound home inside _ settled
  rw [Document.materialize]
  generalize encodeBindings .empty document.bindings (.start (depot.store home)) = outcome at made
  obtain ⟨last, result⟩ := outcome
  cases result <;> exact made

theorem materialize_table_made (depot : Depot) (sound : depot.Sound) (home : Nat)
    (inside : home < depot.stores.length) (table : Table) :
    Made depot (table.materialize depot home) :=
  settled_made depot sound home inside _
    (Value.encode_entries_settled .empty table.entries (.start (depot.store home)) (sound home)
      (Entries.empty_tables _))

theorem materialize_source_made (depot : Depot) (sound : depot.Sound) (home : Nat)
    (inside : home < depot.stores.length) (options : ParseOptions) (source : Text) :
    Made depot (materializeSource options source depot home) := by
  rw [materializeSource]
  split
  · exact ⟨grows_refl depot sound, by rintro _ ⟨⟩⟩
  · exact materialize_made depot sound home inside _

end Depot
end ParamStore

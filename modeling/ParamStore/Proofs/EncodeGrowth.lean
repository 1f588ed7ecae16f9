import ParamStore.Materialize
import ParamStore.Proofs.StorePlace

set_option autoImplicit false

namespace ParamStore

theorem Entries.insert_ok (before after : Entries) (store : Store) (key : Text) (cell : Cell) :
    before.insert store key cell = .ok after ↔
      key.isKey = true ∧ store.Holds cell.tables ∧ after = before.put key cell := by
  rw [Entries.insert]
  cases valid : key.isKey with
  | false => simp
  | true =>
    simp only [if_true, Outcome.bind_ok]
    constructor
    · rintro ⟨_, checked, result⟩
      exact ⟨trivial, (Store.check_tables_iff store cell).mp checked, (Except.ok.inj result).symm⟩
    · rintro ⟨_, holds, rfl⟩
      exact ⟨(), (Store.check_tables_iff store cell).mpr holds, rfl⟩

-- What a step of materializing has to keep: the store grows, and the tables of a result are in it.
structure Settled {α : Type} (tables : α → List Identifier) (before : Store)
    (made : Progress × Except Error α) : Prop where
  grows : Store.Grows before made.1.store
  holds : ∀ result, made.2 = .ok result → made.1.store.Holds (tables result)

namespace Value

theorem intern_table_settled (before : Progress) (grown : Store.Grown before.store.contents)
    (entries : Entries) (holds : before.store.Holds entries.tables) :
    Settled Cell.tables before.store
      ((before.internTable entries).1, .ok (.table (before.internTable entries).2)) := by
  obtain ⟨grows, tableHeld⟩ := Store.intern_grows before.store entries grown holds
  refine ⟨grows, fun result same => ?_⟩
  cases same
  exact tableHeld

mutual
theorem encode_settled (value : Value) (before : Progress)
    (grown : Store.Grown before.store.contents) :
    Settled Cell.tables before.store (value.encode before) := by
  cases value with
  | nil => exact ⟨Store.grows_refl _ grown, by rintro _ ⟨⟩ _ ⟨⟩⟩
  | bool value => exact ⟨Store.grows_refl _ grown, by rintro _ ⟨⟩ _ ⟨⟩⟩
  | number value => exact ⟨Store.grows_refl _ grown, by rintro _ ⟨⟩ _ ⟨⟩⟩
  | complex re im => exact ⟨Store.grows_refl _ grown, by rintro _ ⟨⟩ _ ⟨⟩⟩
  | string text => exact ⟨Store.grows_refl _ grown, by rintro _ ⟨⟩ _ ⟨⟩⟩
  | sequence items =>
    have inside := encode_items_settled items before grown
    simp only [encode]
    refine ⟨inside.grows, fun result made => ?_⟩
    obtain ⟨cells, found, rfl⟩ := (Outcome.map_ok _ _ _).mp made
    exact inside.holds cells found
  | table entries =>
    have none : before.store.Holds Entries.empty.tables := by rintro _ ⟨⟩
    have inside := encode_entries_settled .empty entries before grown none
    simp only [encode]
    split
    · rename_i last error made
      rw [made] at inside
      exact ⟨inside.grows, by rintro _ ⟨⟩⟩
    · rename_i last found made
      rw [made] at inside
      have table := intern_table_settled last inside.grows.grown found (inside.holds found rfl)
      exact ⟨Store.grows_trans _ _ _ inside.grows table.grows, table.holds⟩
theorem encode_items_settled (items : List (Flagged Value)) (before : Progress)
    (grown : Store.Grown before.store.contents) :
    Settled Cell.itemTables before.store (encodeItems items before) := by
  match items with
  | [] => exact ⟨Store.grows_refl _ grown, by rintro _ ⟨⟩ _ ⟨⟩⟩
  | ⟨_, value⟩ :: tail =>
    have first := encode_settled value before grown
    simp only [encodeItems]
    split
    · rename_i last error made
      rw [made] at first
      exact ⟨first.grows, by rintro _ ⟨⟩⟩
    · rename_i next cell made
      rw [made] at first
      have rest := encode_items_settled tail next first.grows.grown
      refine ⟨Store.grows_trans _ _ _ first.grows rest.grows, fun result found => ?_⟩
      obtain ⟨cells, tailMade, rfl⟩ := (Outcome.map_ok _ _ _).mp found
      exact (Store.holds_append _ _ _).mpr
        ⟨Store.keeps_holds _ _ rest.grows.keeps _ (first.holds cell rfl), rest.holds cells tailMade⟩
theorem encode_entries_settled (kept : Entries) (entries : List (Text × Flagged Value))
    (before : Progress) (grown : Store.Grown before.store.contents)
    (held : before.store.Holds kept.tables) :
    Settled Entries.tables before.store (encodeEntries kept entries before) := by
  match entries with
  | [] =>
    refine ⟨Store.grows_refl _ grown, ?_⟩
    rintro _ ⟨⟩
    exact held
  | (key, ⟨inProlog, value⟩) :: tail =>
    simp only [encodeEntries]
    split
    · exact encode_entries_settled kept tail before.countProlog grown held
    · have first := encode_settled value before grown
      split
      · rename_i last error made
        rw [made] at first
        exact ⟨first.grows, by rintro _ ⟨⟩⟩
      · rename_i next cell made
        rw [made] at first
        split
        · exact ⟨first.grows, by rintro _ ⟨⟩⟩
        · rename_i after inserted
          obtain ⟨_, fresh, rfl⟩ := (Entries.insert_ok kept after next.store key cell).mp inserted
          have old := Store.keeps_holds _ _ first.grows.keeps _ held
          have rest := encode_entries_settled (kept.put key cell) tail next first.grows.grown
            (Store.holds_put next.store kept key cell old fresh)
          exact ⟨Store.grows_trans _ _ _ first.grows rest.grows, rest.holds⟩
end

end Value

theorem encode_bindings_settled (kept : Entries) (bindings : List Binding) (before : Progress)
    (grown : Store.Grown before.store.contents) (held : before.store.Holds kept.tables) :
    Settled Entries.tables before.store (encodeBindings kept bindings before) := by
  induction bindings generalizing kept before with
  | nil =>
    refine ⟨Store.grows_refl _ grown, ?_⟩
    rintro _ ⟨⟩
    exact held
  | cons binding tail ih =>
    obtain ⟨name, item, position⟩ := binding
    cases name with
    | none => exact ih kept before.countUnnamed grown held
    | some name =>
      simp only [encodeBindings]
      split
      · exact ih kept before.countProlog grown held
      · have first := Value.encode_settled item.value before grown
        split
        · rename_i last error made
          rw [made] at first
          exact ⟨first.grows, by rintro _ ⟨⟩⟩
        · rename_i next cell made
          rw [made] at first
          split
          · exact ⟨first.grows, by rintro _ ⟨⟩⟩
          · rename_i after inserted
            obtain ⟨_, fresh, rfl⟩ := (Entries.insert_ok kept after next.store name cell).mp inserted
            have old := Store.keeps_holds _ _ first.grows.keeps _ held
            have rest := ih (kept.put name cell) next.countBinding first.grows.grown
              (Store.holds_put next.store kept name cell old fresh)
            exact ⟨Store.grows_trans _ _ _ first.grows rest.grows, rest.holds⟩

end ParamStore

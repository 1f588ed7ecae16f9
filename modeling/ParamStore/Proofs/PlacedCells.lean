import ParamStore.Proofs.Rehoming

set_option autoImplicit false

namespace ParamStore

namespace Store

def spine (path : Text) (overwrite : Bool) (cell : Cell) :
    List Segment → Option Cell → Store → List Entries
  | [], _, _ => []
  | .key name :: rest, slot, store =>
    match store.tableAt path (.key name) slot with
    | .error _ => []
    | .ok entries =>
      match place path overwrite cell rest (entries.lookup name) store with
      | .error _ => []
      | .ok (inner, _) =>
        spine path overwrite cell rest (entries.lookup name) store ++ [entries.put name inner]
  | .index index :: rest, slot, store =>
    match sequenceAt path (.index index) slot with
    | .error _ => []
    | .ok items => spine path overwrite cell rest items[index]? store

theorem spine_key (path : Text) (overwrite : Bool) (cell : Cell) (name : Text) (rest : List Segment)
    (slot : Option Cell) (store : Store) (entries : Entries) (inner : Cell) (next : Store)
    (reached : store.tableAt path (.key name) slot = .ok entries)
    (below : place path overwrite cell rest (entries.lookup name) store = .ok (inner, next)) :
    spine path overwrite cell (.key name :: rest) slot store =
      spine path overwrite cell rest (entries.lookup name) store ++ [entries.put name inner] := by
  simp only [spine, reached, below]

theorem spine_index (path : Text) (overwrite : Bool) (cell : Cell) (index : Nat)
    (rest : List Segment) (slot : Option Cell) (store : Store) (items : List Cell)
    (reached : sequenceAt path (.index index) slot = .ok items) :
    spine path overwrite cell (.index index :: rest) slot store =
      spine path overwrite cell rest items[index]? store := by
  simp only [spine, reached]

theorem place_stores (path : Text) (overwrite : Bool) (cell : Cell) (segments : List Segment)
    (slot : Option Cell) (store : Store) (placed : Cell) (filled : Store)
    (done : place path overwrite cell segments slot store = .ok (placed, filled)) :
    Stores (spine path overwrite cell segments slot store) store filled := by
  induction segments generalizing slot placed filled with
  | nil =>
    rw [place] at done
    split at done
    · cases done
    · cases done
      exact stores_nothing store
  | cons segment rest ih =>
    cases segment with
    | key name =>
      obtain ⟨entries, inner, next, reached, below, _, rfl⟩ :=
        place_key path overwrite cell name rest slot store placed filled done
      rw [spine_key path overwrite cell name rest slot store entries inner next reached below]
      exact stores_append _ _ store next _ (ih (entries.lookup name) inner next below)
        (stores_intern next (entries.put name inner))
    | index place =>
      obtain ⟨items, inner, _, reached, below, _, _⟩ :=
        place_index path overwrite cell place rest slot store placed filled done
      rw [spine_index path overwrite cell place rest slot store items reached]
      exact ih items[place]? inner filled below

def Finds (store : Store) (path : Text) (segments : List Segment) (slot : Option Cell)
    (found : Cell) : Prop :=
  ∃ cell, slot = some cell ∧ store.follow path segments cell = .ok found

theorem finds_some (store : Store) (path : Text) (segments : List Segment) (cell found : Cell) :
    store.Finds path segments (some cell) found ↔ store.follow path segments cell = .ok found := by
  simp [Finds]

theorem follow_table (store : Store) (path name : Text) (behind : List Segment) (id : Identifier)
    (entries : Entries) (read : store.lookup id = some entries) (found : Cell) :
    store.follow path (.key name :: behind) (.table id) = .ok found ↔
      store.Finds path behind (entries.lookup name) found := by
  simp only [follow, Store.entries, read, bind, Except.bind]
  cases entries.lookup name <;> simp [Finds]

theorem follow_sequence (store : Store) (path : Text) (place : Nat) (behind : List Segment)
    (items : List Cell) (found : Cell) :
    store.follow path (.index place :: behind) (.sequence items) = .ok found ↔
      store.Finds path behind items[place]? found := by
  simp only [follow]
  cases items[place]? <;> simp [Finds]

theorem table_at_finds (before store : Store) (keeps : Keeps before store) (path query : Text)
    (step : Segment) (slot : Option Cell) (entries : Entries)
    (reached : before.tableAt path step slot = .ok entries) (segment : Segment)
    (behind : List Segment) (found : Cell) :
    store.Finds query (segment :: behind) slot found ↔
      ∃ name, segment = .key name ∧ store.Finds query behind (entries.lookup name) found := by
  cases table_at_in before path step slot entries reached with
  | none => simp [Finds, Entries.lookup, Entries.empty, Keyed.lookup]
  | table id _ read =>
    rw [finds_some]
    cases segment with
    | key name =>
      rw [follow_table store query name behind id entries (keeps id entries read)]
      simp
    | index place => simp [follow]

theorem sequence_at_finds (store : Store) (path query : Text) (step : Segment) (slot : Option Cell)
    (items : List Cell) (reached : sequenceAt path step slot = .ok items) (segment : Segment)
    (behind : List Segment) (found : Cell) :
    store.Finds query (segment :: behind) slot found ↔
      ∃ place, segment = .index place ∧ store.Finds query behind items[place]? found := by
  cases sequence_at_in path step slot items reached with
  | none => simp [Finds]
  | sequence _ =>
    rw [finds_some]
    cases segment with
    | key name => simp [follow]
    | index place =>
      rw [follow_sequence]
      simp

-- What holds while a cell is put somewhere and stays so: nothing is lost, and the tables that are
-- stored anew are found under their identifiers.
structure Rebuilt (path : Text) (overwrite : Bool) (cell : Cell) (segments : List Segment)
    (slot : Option Cell) (before store : Store) : Prop where
  keeps : Keeps before store
  anew : ∀ entries ∈ spine path overwrite cell segments slot before,
    store.lookup entries.identifier = some entries

variable (path : Text) (overwrite : Bool) (cell : Cell) (before store : Store)

theorem place_rebuilt (segments : List Segment) (slot : Option Cell) (placed : Cell) (filled : Store)
    (grown : Grown before.contents)
    (apart : Entries.Apart (before.contents.map Prod.snd ++
      spine path overwrite cell segments slot before))
    (done : place path overwrite cell segments slot before = .ok (placed, filled)) :
    Rebuilt path overwrite cell segments slot before filled ∧
      filled.Within (before.contents.map Prod.snd ++
        spine path overwrite cell segments slot before) := by
  have stores := place_stores path overwrite cell segments slot before placed filled done
  obtain ⟨within, anew⟩ := stores.stored _ apart
    (grown_within before grown _ (List.subset_append_left _ _)) (List.subset_append_right _ _)
  exact ⟨⟨stores.keeps, anew⟩, within⟩

theorem rebuilt_below (segment : Segment) (rest : List Segment) (slot below : Option Cell)
    (rebuilt : Rebuilt path overwrite cell (segment :: rest) slot before store)
    (inside : spine path overwrite cell rest below before ⊆
      spine path overwrite cell (segment :: rest) slot before) :
    Rebuilt path overwrite cell rest below before store :=
  ⟨rebuilt.keeps, fun entries member => rebuilt.anew entries (inside member)⟩

theorem place_inside (segments : List Segment) (slot : Option Cell) (placed : Cell) (filled : Store)
    (done : place path overwrite cell segments slot before = .ok (placed, filled))
    (rebuilt : Rebuilt path overwrite cell segments slot before store) (query : Text)
    (more : List Segment) :
    store.follow query (segments ++ more) placed = store.follow query more cell := by
  induction segments generalizing slot placed filled with
  | nil =>
    rw [place] at done
    split at done <;> cases done
    rfl
  | cons segment rest ih =>
    cases segment with
    | key name =>
      obtain ⟨entries, inner, next, reached, below, rfl, _⟩ :=
        place_key path overwrite cell name rest slot before placed filled done
      have anew :=
        spine_key path overwrite cell name rest slot before entries inner next reached below
      have read := rebuilt.anew (entries.put name inner) (by simp [anew])
      have found : (entries.put name inner).lookup name = some inner := by
        rw [Entries.lookup_put, if_pos rfl]
      simp only [List.cons_append, follow, Store.entries, read, found, bind, Except.bind]
      exact ih (entries.lookup name) inner next below
        (rebuilt_below path overwrite cell before store _ rest slot _ rebuilt (by simp [anew]))
    | index place =>
      obtain ⟨items, inner, made, reached, below, rfl, changed⟩ :=
        place_index path overwrite cell place rest slot before placed filled done
      have anew := spine_index path overwrite cell place rest slot before items reached
      have found := changed place
      rw [if_pos rfl] at found
      simp only [List.cons_append, follow, found]
      exact ih items[place]? inner filled below
        (rebuilt_below path overwrite cell before store _ rest slot _ rebuilt (by simp [anew]))

theorem place_beside (segments : List Segment) (slot : Option Cell) (placed : Cell) (filled : Store)
    (done : place path overwrite cell segments slot before = .ok (placed, filled))
    (rebuilt : Rebuilt path overwrite cell segments slot before store) (query : Text)
    (others : List Segment) (notInside : ¬ segments <+: others) (notAbove : ¬ others <+: segments)
    (found : Cell) :
    store.follow query others placed = .ok found ↔ store.Finds query others slot found := by
  induction segments generalizing slot placed filled others with
  | nil => exact absurd List.nil_prefix notInside
  | cons segment rest ih =>
    cases others with
    | nil => exact absurd List.nil_prefix notAbove
    | cons other behind =>
      -- Where the segments still agree, they turn off further down.
      have further : other = segment → ¬ rest <+: behind ∧ ¬ behind <+: rest := by
        rintro rfl
        simpa [List.cons_prefix_cons] using And.intro notInside notAbove
      cases segment with
      | key name =>
        obtain ⟨entries, inner, next, reached, below, rfl, _⟩ :=
          place_key path overwrite cell name rest slot before placed filled done
        have anew :=
          spine_key path overwrite cell name rest slot before entries inner next reached below
        have read := rebuilt.anew (entries.put name inner) (by simp [anew])
        have rebuiltBelow := rebuilt_below path overwrite cell before store _ rest slot
          (entries.lookup name) rebuilt (by simp [anew])
        rw [table_at_finds before store rebuilt.keeps path query _ slot entries reached]
        cases other with
        | index place => simp [follow]
        | key wanted =>
          rw [follow_table store query wanted behind _ _ read, Entries.lookup_put]
          by_cases same : wanted = name
          · subst same
            obtain ⟨apart, otherApart⟩ := further rfl
            simpa [finds_some] using
              ih (entries.lookup wanted) inner next below rebuiltBelow behind apart otherApart
          · simp [same]
      | index place =>
        obtain ⟨items, inner, made, reached, below, rfl, changed⟩ :=
          place_index path overwrite cell place rest slot before placed filled done
        have anew := spine_index path overwrite cell place rest slot before items reached
        have rebuiltBelow := rebuilt_below path overwrite cell before store _ rest slot
          items[place]? rebuilt (by simp [anew])
        rw [sequence_at_finds store path query _ slot items reached]
        cases other with
        | key wanted => simp [follow]
        | index wanted =>
          rw [follow_sequence, changed wanted]
          by_cases same : wanted = place
          · subst same
            obtain ⟨apart, otherApart⟩ := further rfl
            simpa [finds_some] using
              ih items[wanted]? inner filled below rebuiltBelow behind apart otherApart
          · simp [same]

end Store
end ParamStore

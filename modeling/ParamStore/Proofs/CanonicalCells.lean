import ParamStore.Proofs.IntegerTexts
import ParamStore.Proofs.PlacedCells
import ParamStore.Proofs.ValueCanonical

set_option autoImplicit false

namespace ParamStore

inductive Atom.Canonical : Atom → Prop where
  | nil : Canonical ⟨.nil, nilWord⟩
  | bool (value : Bool) : Canonical ⟨.bool, encodeBool value⟩
  | integer (n : Int) : Canonical ⟨.integer, encodeInt n⟩
  | float (x : Double) (text : Text) (written : encodeFloat x = .ok text) : Canonical ⟨.float, text⟩
  | complex (x y : Double) (re im : Text) (first : encodeFloat x = .ok re)
      (second : encodeFloat y = .ok im) : Canonical ⟨.complex, Complex.join re im⟩
  | string (content : Text) : Canonical ⟨.string, content.canonical⟩

namespace Cell

mutual
def atoms : Cell → List Atom
  | .atom a => [a]
  | .sequence items => itemAtoms items
  | .table _ => []
def itemAtoms : List Cell → List Atom
  | [] => []
  | item :: tail => atoms item ++ itemAtoms tail
end

theorem mem_item_atoms (items : List Cell) (atom : Atom) :
    atom ∈ itemAtoms items ↔ ∃ item ∈ items, atom ∈ item.atoms := by
  induction items with
  | nil => simp [itemAtoms]
  | cons item tail ih => simp [itemAtoms, ih]

def Canonical (cell : Cell) : Prop := ∀ atom ∈ cell.atoms, atom.Canonical

theorem of_canonical (kind : AtomKind) (text : Text) (canonical : Atom.Canonical ⟨kind, text⟩) :
    (Cell.of kind text).Canonical := by
  intro atom member
  rw [List.mem_singleton.mp member]
  exact canonical

theorem nil_canonical : Cell.nil.Canonical := of_canonical _ _ .nil

theorem table_canonical (id : Identifier) : (Cell.table id).Canonical := by rintro _ ⟨⟩

theorem sequence_canonical (items : List Cell) :
    (Cell.sequence items).Canonical ↔ ∀ item ∈ items, item.Canonical := by
  constructor
  · intro canonical item member atom inside
    exact canonical atom ((mem_item_atoms items atom).mpr ⟨item, member, inside⟩)
  · intro each atom inside
    obtain ⟨item, member, present⟩ := (mem_item_atoms items atom).mp inside
    exact each item member atom present

end Cell

namespace Entries

def Canonical (entries : Entries) : Prop := ∀ entry ∈ entries.cells, entry.2.Canonical

theorem empty_canonical : Entries.empty.Canonical := by rintro _ ⟨⟩

theorem lookup_canonical (entries : Entries) (canonical : entries.Canonical) (key : Text) (cell : Cell)
    (found : entries.lookup key = some cell) : cell.Canonical :=
  canonical (key, cell) (Keyed.lookup_mem key cell entries.cells found)

theorem put_canonical (entries : Entries) (canonical : entries.Canonical) (key : Text) (cell : Cell)
    (fresh : cell.Canonical) : (entries.put key cell).Canonical := by
  intro entry member
  rcases Keyed.mem_put key cell entries.cells entry member with rfl | old
  · exact fresh
  · exact canonical entry old

theorem remove_canonical (entries : Entries) (canonical : entries.Canonical) (key : Text) :
    (entries.remove key).Canonical :=
  fun entry member => canonical entry (List.mem_filter.mp member).1

end Entries

namespace Store

def Canonical (store : Store) : Prop :=
  ∀ id entries, store.lookup id = some entries → entries.Canonical

theorem insert_canonical (store : Store) (canonical : store.Canonical) (id : Identifier)
    (entries : Entries) (fresh : entries.Canonical) : (store.insert id entries).Canonical := by
  intro query found read
  rw [lookup_insert] at read
  split at read
  · cases read
    exact fresh
  · exact canonical query found read

theorem table_at_canonical (store : Store) (canonical : store.Canonical) (path : Text)
    (step : Segment) (slot : Option Cell) (entries : Entries)
    (reached : store.tableAt path step slot = .ok entries) : entries.Canonical := by
  cases table_at_in store path step slot entries reached with
  | none => exact Entries.empty_canonical
  | table id _ read => exact canonical id entries read

theorem sequence_at_canonical (path : Text) (step : Segment) (slot : Option Cell)
    (canonical : ∀ cell, slot = some cell → cell.Canonical) (items : List Cell)
    (reached : sequenceAt path step slot = .ok items) : ∀ item ∈ items, item.Canonical := by
  cases sequence_at_in path step slot items reached with
  | none => simp
  | sequence _ => exact (Cell.sequence_canonical items).mp (canonical _ rfl)

theorem place_canonical (path : Text) (overwrite : Bool) (cell : Cell) (fresh : cell.Canonical)
    (segments : List Segment) (slot : Option Cell)
    (slotCanonical : ∀ found, slot = some found → found.Canonical) (store : Store)
    (canonical : store.Canonical) (placed : Cell) (filled : Store)
    (done : place path overwrite cell segments slot store = .ok (placed, filled)) :
    placed.Canonical ∧ filled.Canonical := by
  induction segments generalizing slot placed filled with
  | nil =>
    rw [place] at done
    split at done <;> cases done
    exact ⟨fresh, canonical⟩
  | cons segment rest ih =>
    cases segment with
    | key name =>
      obtain ⟨entries, inner, next, reached, below, rfl, rfl⟩ :=
        place_key path overwrite cell name rest slot store placed filled done
      have old := table_at_canonical store canonical path (.key name) slot entries reached
      obtain ⟨innerCanonical, nextCanonical⟩ := ih (entries.lookup name)
        (fun found present => entries.lookup_canonical old name found present) inner next below
      exact ⟨Cell.table_canonical _,
        insert_canonical next nextCanonical _ _ (entries.put_canonical old name inner innerCanonical)⟩
    | index place =>
      obtain ⟨items, inner, made, reached, below, rfl, changed⟩ :=
        place_index path overwrite cell place rest slot store placed filled done
      have old := sequence_at_canonical path (.index place) slot slotCanonical items reached
      obtain ⟨innerCanonical, filledCanonical⟩ := ih items[place]?
        (fun found present => old found (List.mem_of_getElem? present)) inner filled below
      refine ⟨(Cell.sequence_canonical made).mpr fun item member => ?_, filledCanonical⟩
      obtain ⟨wanted, here⟩ := List.mem_iff_getElem?.mp member
      rw [changed wanted] at here
      split at here
      · cases here
        exact innerCanonical
      · exact old item (List.mem_of_getElem? here)

end Store

-- What a step of materializing has to keep: nothing but canonical cells, stored or made.
structure Refined {α : Type} (canonical : α → Prop) (made : Progress × Except Error α) : Prop where
  store : made.1.store.Canonical
  result : ∀ result, made.2 = .ok result → canonical result

namespace Value

theorem number_canonical (number : Number) (canonical : (Value.number number).Canonical) :
    Atom.Canonical ⟨.ofNumber number.kind, number.text⟩ := by
  obtain ⟨literal, made⟩ := canonical
  rcases Number.of_literal_cases literal number made with ⟨integer, rfl⟩ | ⟨_, x, _, floated⟩
  · simp only [integer_text_value _ _ (Number.literal_digits literal integer)]
    exact .integer _
  · obtain ⟨written, kind⟩ := Number.of_float_ok x number floated
    rw [kind]
    exact .float x number.text written

theorem plain_refined (before : Progress) (known : before.store.Canonical) (cell : Cell)
    (canonical : cell.Canonical) : Refined Cell.Canonical (before, .ok cell) := by
  refine ⟨known, ?_⟩
  rintro _ ⟨⟩
  exact canonical

mutual
theorem encode_refined (value : Value) (canonical : value.Canonical) (before : Progress)
    (known : before.store.Canonical) : Refined Cell.Canonical (value.encode before) := by
  cases value with
  | nil => exact plain_refined before known _ Cell.nil_canonical
  | bool value => exact plain_refined before known _ (Cell.of_canonical _ _ (.bool value))
  | number value =>
    exact plain_refined before known _ (Cell.of_canonical _ _ (number_canonical value canonical))
  | complex re im =>
    obtain ⟨⟨x, first⟩, y, second⟩ := canonical
    exact plain_refined before known _ (Cell.of_canonical _ _
      (.complex x y _ _ (Number.of_float_ok x re first).1 (Number.of_float_ok y im second).1))
  | string text =>
    obtain ⟨content, rfl⟩ := canonical
    exact plain_refined before known _ (Cell.of_canonical _ _ (.string content))
  | sequence items =>
    have inside := encode_items_refined items
      (fun item member => ((items_canonical_iff items).mp canonical item member).2) before known
    simp only [encode]
    refine ⟨inside.store, fun result made => ?_⟩
    obtain ⟨cells, found, rfl⟩ := (Outcome.map_ok _ _ _).mp made
    exact (Cell.sequence_canonical cells).mpr (inside.result cells found)
  | table entries =>
    have inside := encode_entries_refined .empty Entries.empty_canonical entries
      (fun entry member => ((entries_canonical_iff entries).mp canonical.2 entry member).2.2) before
      known
    simp only [encode]
    split
    · rename_i last error made
      rw [made] at inside
      exact ⟨inside.store, by rintro _ ⟨⟩⟩
    · rename_i last found made
      rw [made] at inside
      refine ⟨Store.insert_canonical last.store inside.store _ found (inside.result found rfl), ?_⟩
      rintro _ ⟨⟩
      exact Cell.table_canonical _
theorem encode_items_refined (items : List (Flagged Value))
    (canonical : ∀ item ∈ items, item.value.Canonical) (before : Progress)
    (known : before.store.Canonical) :
    Refined (fun cells => ∀ cell ∈ cells, cell.Canonical) (encodeItems items before) := by
  match items with
  | [] => exact ⟨known, by rintro _ ⟨⟩ _ ⟨⟩⟩
  | ⟨flag, value⟩ :: tail =>
    have first := encode_refined value (canonical ⟨flag, value⟩ (List.mem_cons_self ..)) before known
    simp only [encodeItems]
    split
    · rename_i last error made
      rw [made] at first
      exact ⟨first.store, by rintro _ ⟨⟩⟩
    · rename_i next cell made
      rw [made] at first
      have rest := encode_items_refined tail
        (fun item member => canonical item (List.mem_cons_of_mem _ member)) next first.store
      refine ⟨rest.store, fun result found => ?_⟩
      obtain ⟨cells, tailMade, rfl⟩ := (Outcome.map_ok _ _ _).mp found
      exact List.forall_mem_cons.mpr ⟨first.result cell rfl, rest.result cells tailMade⟩
theorem encode_entries_refined (kept : Entries) (keptCanonical : kept.Canonical)
    (entries : List (Text × Flagged Value))
    (canonical : ∀ entry ∈ entries, entry.2.value.Canonical) (before : Progress)
    (known : before.store.Canonical) :
    Refined Entries.Canonical (encodeEntries kept entries before) := by
  match entries with
  | [] =>
    refine ⟨known, ?_⟩
    rintro _ ⟨⟩
    exact keptCanonical
  | (key, ⟨inProlog, value⟩) :: tail =>
    have later : ∀ entry ∈ tail, entry.2.value.Canonical :=
      fun entry member => canonical entry (List.mem_cons_of_mem _ member)
    simp only [encodeEntries]
    split
    · exact encode_entries_refined kept keptCanonical tail later before.countProlog known
    · have first := encode_refined value (canonical (key, ⟨inProlog, value⟩) (List.mem_cons_self ..))
        before known
      split
      · rename_i last error made
        rw [made] at first
        exact ⟨first.store, by rintro _ ⟨⟩⟩
      · rename_i next cell made
        rw [made] at first
        split
        · exact ⟨first.store, by rintro _ ⟨⟩⟩
        · rename_i after inserted
          obtain ⟨_, _, rfl⟩ := (Entries.insert_ok kept after next.store key cell).mp inserted
          exact encode_entries_refined _
            (kept.put_canonical keptCanonical key cell (first.result cell rfl)) tail later next
            first.store
end

end Value
end ParamStore

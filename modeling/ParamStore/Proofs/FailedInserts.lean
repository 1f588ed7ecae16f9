import ParamStore.Proofs.FilledTables
import ParamStore.Proofs.PathTexts
import ParamStore.Proofs.TableKeys

set_option autoImplicit false

namespace ParamStore

namespace Value

-- The steps that are made anew, where an index behind them then fails: those up to the first index that
-- needs a sequence and does not start it. `slot` is what is there.
def stranded? : List Segment → Option Value → Option (List Segment)
  | [], _ => none
  | .key key :: rest, none => (stranded? rest none).map (.key key :: ·)
  | [.index 0], none => none
  | .index _ :: _, none => some []
  | .key key :: rest, some (.table entries) =>
    (stranded? rest ((Keyed.lookup key entries).map (·.value))).map (.key key :: ·)
  | .index index :: rest, some (.sequence items) =>
    items[index]?.bind fun item => (stranded? rest (some item.value)).map (.index index :: ·)
  | _ :: _, some _ => none

structure Leaves (path other : Text) (item : Flagged Value) (steps : List Segment)
    (slot : Option (Flagged Value)) (error : Error) : Prop where
  kept : stranded? steps (slot.map (·.value)) = none → slot = some (fill path item steps slot).1
  left : ∀ front, stranded? steps (slot.map (·.value)) = some front → error = .cantFind path ∧
    fill other ⟨item.inProlog, .sequence []⟩ front slot = ((fill path item steps slot).1, .ok ()) ∧
    slot ≠ some (fill path item steps slot).1

theorem entry_leaves (path other : Text) (item : Flagged Value) (key : Text) (rest : List Segment)
    (flag : Bool) (entries : List (Text × Flagged Value)) (ordered : Keyed.Ordered entries) (error : Error)
    (below : Leaves path other item rest (Keyed.lookup key entries) error) :
    Leaves path other item (.key key :: rest) (some ⟨flag, .table entries⟩) error := by
  constructor
  · intro none
    have found := below.kept (by simpa [stranded?] using none)
    rw [fill_entry, Keyed.put_present key _ entries ordered found]
  · intro front stranded
    obtain ⟨inner, deeper, rfl⟩ := Option.map_eq_some_iff.mp stranded
    obtain ⟨missing, filled, changed⟩ := below.left inner deeper
    refine ⟨missing, ?_, fun same => changed ?_⟩
    · rw [fill_entry, fill_entry, filled]
    · rw [fill_entry] at same
      simp only [Option.some.injEq, Flagged.mk.injEq, Value.table.injEq, true_and] at same
      have found := Keyed.lookup_put key key (fill path item rest (Keyed.lookup key entries)).1 entries
      rwa [← same, if_pos rfl] at found

theorem new_entry_leaves (path other : Text) (item : Flagged Value) (key : Text) (rest : List Segment)
    (error : Error) (below : Leaves path other item rest none error) :
    Leaves path other item (.key key :: rest) none error := by
  constructor
  · intro kept
    cases below.kept (by simpa [stranded?] using kept)
  · intro front stranded
    obtain ⟨inner, deeper, rfl⟩ := Option.map_eq_some_iff.mp stranded
    obtain ⟨missing, filled, _⟩ := below.left inner deeper
    refine ⟨missing, ?_, by rintro ⟨⟩⟩
    rw [fill_new_entry, fill_new_entry, filled]

theorem present_leaves (path other : Text) (item : Flagged Value) (index : Nat) (rest : List Segment)
    (flag : Bool) (items : List (Flagged Value)) (slot : Flagged Value) (found : items[index]? = some slot)
    (error : Error) (below : Leaves path other item rest (some slot) error) :
    Leaves path other item (.index index :: rest) (some ⟨flag, .sequence items⟩) error := by
  have filled := fun (query : Text) (fresh : Flagged Value) (steps : List Segment) =>
    fill_present query fresh index steps flag items slot found
  have inside := (List.getElem?_eq_some_iff.mp found).1
  constructor
  · intro none
    have same := below.kept (by simpa [stranded?, found] using none)
    rw [filled, ← Option.some.inj same, ← (List.getElem?_eq_some_iff.mp found).2, List.set_getElem_self]
  · intro front stranded
    simp only [Option.map_some, stranded?, found, Option.bind_some] at stranded
    obtain ⟨inner, deeper, rfl⟩ := Option.map_eq_some_iff.mp stranded
    obtain ⟨missing, lower, changed⟩ := below.left inner deeper
    refine ⟨missing, ?_, fun same => changed ?_⟩
    · rw [filled, filled, lower]
    · rw [filled] at same
      simp only [Option.some.injEq, Flagged.mk.injEq, Value.sequence.injEq, true_and] at same
      have placed := List.getElem?_set_self inside (a := (fill path item rest (some slot)).1)
      rwa [← same, found] at placed

theorem stuck_leaves (path other : Text) (item : Flagged Value) (next : Segment) (rest : List Segment)
    (old : Flagged Value) (stuck : stranded? (next :: rest) (some old.value) = none) (error : Error)
    (placed : (place path item rest next old.value).1 = old.value) :
    Leaves path other item (next :: rest) (some old) error where
  kept _ := by simp only [fill, Option.getD_some, placed]
  left front stranded := by
    rw [Option.map_some, stuck] at stranded
    cases stranded

theorem new_item_leaves (path other : Text) (item : Flagged Value) (index : Nat) (rest : List Segment)
    (error : Error) (failed : (fill path item (.index index :: rest) none).2 = .error error) :
    Leaves path other item (.index index :: rest) none error := by
  by_cases starts : rest = [] ∧ index = 0
  · obtain ⟨rfl, rfl⟩ := starts
    cases failed
  · have stranded : stranded? (.index index :: rest) none = some [] := by
      rw [stranded?]
      rintro rfl rfl
      exact starts ⟨rfl, rfl⟩
    have filled : fill path item (.index index :: rest) none =
        (⟨item.inProlog, .sequence []⟩, .error (.cantFind path)) := by
      simp only [fill, Option.getD_none, emptyFor, place_absent path item rest index [] rfl,
        List.length_nil, if_neg starts]
    rw [filled] at failed
    constructor
    · intro kept
      cases stranded.symm.trans kept
    · intro front isFront
      cases stranded.symm.trans isFront
      rw [filled]
      exact ⟨(Except.error.inj failed).symm, rfl, by rintro ⟨⟩⟩

-- The induction is on the steps; the slot that the next step leads to may be there or not.
theorem fill_leaves (path other : Text) (item : Flagged Value) (steps : List Segment)
    (slot : Option (Flagged Value)) (sorted : ∀ old, slot = some old → old.value.Sorted) (error : Error)
    (failed : (fill path item steps slot).2 = .error error) :
    Leaves path other item steps slot error := by
  induction steps generalizing slot with
  | nil => cases failed
  | cons next rest ih =>
    cases slot with
    | none =>
      cases next with
      | key key =>
        rw [fill_new_entry] at failed
        exact new_entry_leaves path other item key rest error (ih none (by rintro _ ⟨⟩) failed)
      | index index => exact new_item_leaves path other item index rest error failed
    | some old =>
      obtain ⟨flag, value⟩ := old
      have inside := sorted _ rfl
      cases next with
      | key key =>
        cases value with
        | table entries =>
          rw [fill_entry] at failed
          exact entry_leaves path other item key rest flag entries inside.1 error
            (ih _ (fun item found => lookup_sorted key item entries inside found) failed)
        | _ => exact stuck_leaves path other item _ rest _ (by simp [stranded?]) error (by cases rest <;> rfl)
      | index index =>
        cases value with
        | sequence items =>
          cases found : items[index]? with
          | some slot =>
            rw [fill_present path item index rest flag items slot found] at failed
            refine present_leaves path other item index rest flag items slot found error (ih _ ?_ failed)
            intro old same
            cases same
            exact (items_sorted_iff items).mp inside slot (List.mem_of_getElem? found)
          | none =>
            refine stuck_leaves path other item _ rest _ (by simp [stranded?, found]) error ?_
            rw [place_absent path item rest index items found]
            split
            · rename_i last
              simp only [fill, Option.getD_some, place_absent path item rest index items found,
                if_pos last] at failed
              cases failed
            · rfl
        | _ => exact stuck_leaves path other item _ rest _ (by simp [stranded?]) error (by cases rest <;> rfl)

theorem stranded_prefix (steps : List Segment) (slot : Option Value) (front : List Segment)
    (stranded : stranded? steps slot = some front) : front <+: steps := by
  fun_induction stranded? steps slot generalizing front with
  | case2 key rest ih =>
    obtain ⟨inner, deeper, rfl⟩ := Option.map_eq_some_iff.mp stranded
    exact List.cons_prefix_cons.mpr ⟨rfl, ih inner deeper⟩
  | case4 =>
    cases stranded
    exact List.nil_prefix
  | case5 key rest entries ih =>
    obtain ⟨inner, deeper, rfl⟩ := Option.map_eq_some_iff.mp stranded
    exact List.cons_prefix_cons.mpr ⟨rfl, ih inner deeper⟩
  | case6 index rest items ih =>
    obtain ⟨item, _, deeper⟩ := Option.bind_eq_some_iff.mp stranded
    obtain ⟨inner, deepest, rfl⟩ := Option.map_eq_some_iff.mp deeper
    exact List.cons_prefix_cons.mpr ⟨rfl, ih item inner deepest⟩
  | _ => cases stranded

end Value

namespace Table

def stranded? (table : Table) (path : Text) : Option Path :=
  match Path.read path with
  | .error _ => none
  | .ok parsed =>
    (Value.stranded? parsed.rest ((table.get? parsed.root).map (·.value))).map (⟨parsed.root, ·⟩)

theorem set_same_iff (table : Table) (ordered : Keyed.Ordered table.entries) (key : Text)
    (item : Flagged Value) : table.set key item = table ↔ table.get? key = some item := by
  constructor
  · intro same
    have found := Keyed.lookup_put key key item table.entries
    rw [if_pos rfl] at found
    rw [← found]
    exact congrArg (fun whole => whole.get? key) same.symm
  · intro found
    rw [set, Keyed.put_present key item table.entries ordered found]

-- Where a sequence was made in vain the table is what a successful insertion of that sequence leaves.
theorem insert_failed (table : Table) (sorted : (Value.table table.entries).Sorted) (path : Text)
    (inProlog : Bool) (value : Except Error Value) (after : Table) (error : Error)
    (failed : table.insertValue path inProlog value = (after, .error error)) :
    (after ≠ table ↔ value.isOk = true ∧ (table.stranded? path).isSome = true) ∧
      ∀ front, value.isOk = true → table.stranded? path = some front →
        error = .cantFind path ∧ table.insert front.text ⟨inProlog, .sequence []⟩ = (after, .ok ()) := by
  cases value with
  | error refused =>
    cases failed
    simp [Except.isOk, Except.toBool]
  | ok value =>
    change table.insert path ⟨inProlog, value⟩ = _ at failed
    simp only [Except.isOk, Except.toBool, true_and, forall_const]
    cases read : Path.read path with
    | error refused =>
      rw [insert, read] at failed
      cases failed
      simp [stranded?, read]
    | ok parsed =>
      obtain ⟨root, rest⟩ := List.forall_mem_cons.mp (Path.read_valid path parsed read)
      rw [table.insert_filled path parsed read ⟨inProlog, value⟩] at failed
      obtain ⟨rfl, outcome⟩ := Prod.mk.inj failed
      have leaves := fun other => Value.fill_leaves path other ⟨inProlog, value⟩ parsed.rest
        (table.get? parsed.root) (fun old found => Value.lookup_sorted parsed.root old _ sorted found)
        error outcome
      cases deeper : Value.stranded? parsed.rest ((table.get? parsed.root).map (·.value)) with
      | none =>
        have same := (set_same_iff table sorted.1 _ _).mpr ((leaves path).kept deeper)
        simp [stranded?, read, deeper, same]
      | some inner =>
        have valid : ∀ segment ∈ inner, segment.Valid := fun segment member =>
          rest segment ((Value.stranded_prefix _ _ inner deeper).subset member)
        have again := Path.read_text ⟨parsed.root, inner⟩ root valid
        obtain ⟨missing, filled, changed⟩ := (leaves (Path.text ⟨parsed.root, inner⟩)).left inner deeper
        have front : table.stranded? path = some ⟨parsed.root, inner⟩ := by
          simp only [stranded?, read, deeper, Option.map_some]
        have differs := mt (set_same_iff table sorted.1 _ _).mp changed
        refine ⟨⟨fun _ => by rw [front]; rfl, fun _ => differs⟩, fun other isFront => ?_⟩
        cases front.symm.trans isFront
        rw [table.insert_filled _ _ again, filled]
        exact ⟨missing, rfl⟩

theorem failed_insert_stays :
    Table.empty.insert ['a', '[', '1', ']'] ⟨false, .nil⟩ =
        (⟨[(['a'], ⟨false, .sequence []⟩)]⟩, .error (.cantFind ['a', '[', '1', ']'])) ∧
      (Table.empty.insert ['a', '[', '1', ']'] ⟨false, .nil⟩).1 ≠ Table.empty := by
  have failed : Table.empty.insert ['a', '[', '1', ']'] ⟨false, .nil⟩ =
      (⟨[(['a'], ⟨false, .sequence []⟩)]⟩, .error (.cantFind ['a', '[', '1', ']'])) := by
    with_unfolding_all rfl
  refine ⟨failed, ?_⟩
  rw [failed]
  decide

def hollow : Table := ⟨[(['a'], ⟨false, .table []⟩)]⟩

theorem insert_failed_below :
    (Value.table hollow.entries).Sorted ∧
      ∃ after, hollow.insertValue ['a', '.', 'b', '.', 'c', '[', '1', ']', '.', 'd'] true (.ok .nil) =
          (after, .error (.cantFind ['a', '.', 'b', '.', 'c', '[', '1', ']', '.', 'd'])) ∧
        after ≠ hollow ∧
        hollow.insert ['a', '.', 'b', '.', 'c'] ⟨true, .sequence []⟩ = (after, .ok ()) := by
  have sorted : (Value.table hollow.entries).Sorted := ⟨by decide, ⟨by decide, trivial⟩, trivial⟩
  have failed : hollow.insertValue ['a', '.', 'b', '.', 'c', '[', '1', ']', '.', 'd'] true (.ok .nil) =
      (⟨[(['a'], ⟨false, .table [(['b'], ⟨true, .table [(['c'], ⟨true, .sequence []⟩)]⟩)]⟩)]⟩,
        .error (.cantFind ['a', '.', 'b', '.', 'c', '[', '1', ']', '.', 'd'])) := by
    with_unfolding_all rfl
  have front : hollow.stranded? ['a', '.', 'b', '.', 'c', '[', '1', ']', '.', 'd'] =
      some ⟨['a'], [.key ['b'], .key ['c']]⟩ := by
    with_unfolding_all rfl
  obtain ⟨changes, leaves⟩ := insert_failed hollow sorted _ true (.ok .nil) _ _ failed
  exact ⟨sorted, _, failed, changes.mpr ⟨rfl, by rw [front]; rfl⟩, (leaves _ rfl front).2⟩

end Table
end ParamStore

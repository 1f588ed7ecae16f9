import ParamStore.Table

set_option autoImplicit false

namespace ParamStore
namespace Value

def fill (path : Text) (item : Flagged Value) :
    List Segment → Option (Flagged Value) → Flagged Value × Except Error Unit
  | [], _ => (item, .ok ())
  | next :: rest, slot =>
    let old := slot.getD ⟨item.inProlog, emptyFor next⟩
    let inner := place path item rest next old.value
    (⟨old.inProlog, inner.1⟩, inner.2)

theorem place_entry (path : Text) (item : Flagged Value) (rest : List Segment) (key : Text)
    (entries : List (Text × Flagged Value)) :
    place path item rest (.key key) (.table entries) =
      (.table (Keyed.put key (fill path item rest (Keyed.lookup key entries)).1 entries),
        (fill path item rest (Keyed.lookup key entries)).2) := by
  cases rest <;> rfl

theorem place_present (path : Text) (item : Flagged Value) (rest : List Segment) (index : Nat)
    (items : List (Flagged Value)) (slot : Flagged Value) (found : items[index]? = some slot) :
    place path item rest (.index index) (.sequence items) =
      (.sequence (items.set index (fill path item rest (some slot)).1),
        (fill path item rest (some slot)).2) := by
  cases rest with
  | nil =>
    have inside := (List.getElem?_eq_some_iff.mp found).1
    rw [place, if_pos inside, fill]
  | cons next rest => simp only [place, found, fill, Option.getD_some]

-- Behind the last item only an item itself goes, and only right behind it.
theorem place_absent (path : Text) (item : Flagged Value) (rest : List Segment) (index : Nat)
    (items : List (Flagged Value)) (missing : items[index]? = none) :
    place path item rest (.index index) (.sequence items) =
      if rest = [] ∧ index = items.length then (.sequence (items ++ [item]), .ok ())
      else (.sequence items, .error (.cantFind path)) := by
  have outside := Nat.not_lt.mpr (List.getElem?_eq_none_iff.mp missing)
  cases rest with
  | nil => simp only [place, if_neg outside, true_and]
  | cons next rest => simp [place, missing]

theorem fill_entry (path : Text) (item : Flagged Value) (key : Text) (rest : List Segment) (flag : Bool)
    (entries : List (Text × Flagged Value)) :
    fill path item (.key key :: rest) (some ⟨flag, .table entries⟩) =
      (⟨flag, .table (Keyed.put key (fill path item rest (Keyed.lookup key entries)).1 entries)⟩,
        (fill path item rest (Keyed.lookup key entries)).2) := by
  simp only [fill, Option.getD_some, place_entry]

theorem fill_new_entry (path : Text) (item : Flagged Value) (key : Text) (rest : List Segment) :
    fill path item (.key key :: rest) none =
      (⟨item.inProlog, .table [(key, (fill path item rest none).1)]⟩, (fill path item rest none).2) :=
  fill_entry path item key rest item.inProlog []

theorem fill_present (path : Text) (item : Flagged Value) (index : Nat) (rest : List Segment)
    (flag : Bool) (items : List (Flagged Value)) (slot : Flagged Value) (found : items[index]? = some slot) :
    fill path item (.index index :: rest) (some ⟨flag, .sequence items⟩) =
      (⟨flag, .sequence (items.set index (fill path item rest (some slot)).1)⟩,
        (fill path item rest (some slot)).2) := by
  simp only [fill, Option.getD_some, place_present path item rest index items slot found]

theorem fill_step (path : Text) (item : Flagged Value) (next : Segment) (rest : List Segment)
    (slot : Option (Flagged Value)) (made : Flagged Value)
    (done : fill path item (next :: rest) slot = (made, .ok ())) :
    ∃ changed, place path item rest next (slot.getD ⟨item.inProlog, emptyFor next⟩).value =
        (changed, .ok ()) ∧
      made = ⟨(slot.getD ⟨item.inProlog, emptyFor next⟩).inProlog, changed⟩ := by
  obtain ⟨same, succeeds⟩ := Prod.mk.inj done
  exact ⟨_, Prod.ext rfl succeeds, same.symm⟩

theorem place_item (path : Text) (item : Flagged Value) (rest : List Segment) (index : Nat)
    (items : List (Flagged Value)) (changed : Value)
    (done : place path item rest (.index index) (.sequence items) = (changed, .ok ())) :
    ∃ made, fill path item rest items[index]? = (made, .ok ()) ∧ index ≤ items.length ∧
      changed = .sequence (if index = items.length then items ++ [made] else items.set index made) := by
  cases found : items[index]? with
  | some slot =>
    have inside := (List.getElem?_eq_some_iff.mp found).1
    rw [place_present path item rest index items slot found] at done
    obtain ⟨rfl, succeeds⟩ := Prod.mk.inj done
    exact ⟨_, Prod.ext rfl succeeds, Nat.le_of_lt inside, by rw [if_neg (Nat.ne_of_lt inside)]⟩
  | none =>
    rw [place_absent path item rest index items found] at done
    split at done
    · rename_i last
      obtain ⟨rfl, rfl⟩ := last
      cases done
      exact ⟨item, rfl, Nat.le_refl _, by rw [if_pos rfl]⟩
    · cases done

theorem place_cases (path : Text) (item : Flagged Value) (rest : List Segment) (segment : Segment)
    (target changed : Value) (done : place path item rest segment target = (changed, .ok ())) :
    (∃ key entries made, segment = .key key ∧ target = .table entries ∧
      fill path item rest (Keyed.lookup key entries) = (made, .ok ()) ∧
      changed = .table (Keyed.put key made entries)) ∨
    ∃ index items made, segment = .index index ∧ target = .sequence items ∧
      fill path item rest items[index]? = (made, .ok ()) ∧ index ≤ items.length ∧
      changed = .sequence (if index = items.length then items ++ [made] else items.set index made) := by
  cases segment with
  | key key =>
    cases target with
    | table entries =>
      rw [place_entry] at done
      obtain ⟨same, succeeds⟩ := Prod.mk.inj done
      exact .inl ⟨key, entries, _, rfl, rfl, Prod.ext rfl succeeds, same.symm⟩
    | _ => cases rest <;> cases done
  | index index =>
    cases target with
    | sequence items =>
      exact .inr ⟨index, items, (place_item path item rest index items changed done).imp
        fun made rest => ⟨rfl, rfl, rest⟩⟩
    | _ => cases rest <;> cases done

end Value

namespace Table

theorem insert_filled (table : Table) (path : Text) (parsed : Path) (read : Path.read path = .ok parsed)
    (item : Flagged Value) :
    table.insert path item =
      (table.set parsed.root (Value.fill path item parsed.rest (table.get? parsed.root)).1,
        (Value.fill path item parsed.rest (table.get? parsed.root)).2) := by
  simp only [insert, read, Value.place_entry]
  rfl

theorem insert_ok (table edited : Table) (path : Text) (item : Flagged Value)
    (done : table.insert path item = (edited, .ok ())) :
    ∃ parsed made, Path.read path = .ok parsed ∧
      Value.fill path item parsed.rest (table.get? parsed.root) = (made, .ok ()) ∧
      edited = table.set parsed.root made := by
  cases read : Path.read path with
  | error error =>
    rw [insert, read] at done
    cases done
  | ok parsed =>
    rw [table.insert_filled path parsed read item] at done
    obtain ⟨same, succeeds⟩ := Prod.mk.inj done
    exact ⟨parsed, _, rfl, Prod.ext rfl succeeds, same.symm⟩

end Table
end ParamStore

import ParamStore.Text

set_option autoImplicit false

namespace ParamStore

abbrev Keyed (α : Type) := List (Text × α)

namespace Keyed

variable {α : Type}

def lookup (query : Text) : Keyed α → Option α
  | [] => none
  | (key, item) :: tail => if query = key then some item else lookup query tail

def put (fresh : Text) (item : α) : Keyed α → Keyed α
  | [] => [(fresh, item)]
  | (key, old) :: tail =>
    if fresh = key then (fresh, item) :: tail
    else if fresh < key then (fresh, item) :: (key, old) :: tail
    else (key, old) :: put fresh item tail

def remove (query : Text) (entries : Keyed α) : Keyed α :=
  entries.filter fun entry => entry.1 != query

-- Of several items under one key the last stays.
def ofList (items : List (Text × α)) : Keyed α :=
  items.foldl (fun entries item => put item.1 item.2 entries) []

def keys (entries : Keyed α) : List Text := entries.map (·.1)

-- Keys go up strictly, so none occurs twice.
def Ordered (entries : Keyed α) : Prop := entries.keys.Pairwise (· < ·)

instance (entries : Keyed α) : Decidable (Ordered entries) :=
  inferInstanceAs (Decidable (List.Pairwise _ _))

theorem lookup_put (query fresh : Text) (item : α) (entries : Keyed α) :
    (put fresh item entries).lookup query =
      if query = fresh then some item else entries.lookup query := by
  induction entries with
  | nil => simp [put, lookup]
  | cons entry tail ih =>
    obtain ⟨key, old⟩ := entry
    by_cases same : fresh = key
    · subst same
      by_cases found : query = fresh <;> simp [put, lookup, found]
    · by_cases before : fresh < key
      · by_cases found : query = fresh <;> simp [put, lookup, same, before, found]
      · by_cases found : query = key
        · simp [put, lookup, same, before, found, Ne.symm same]
        · simp [put, lookup, same, before, found, ih]

theorem lookup_remove (query gone : Text) (entries : Keyed α) :
    (remove gone entries).lookup query = if query = gone then none else entries.lookup query := by
  induction entries with
  | nil => simp [remove, lookup]
  | cons entry tail ih =>
    obtain ⟨key, old⟩ := entry
    simp only [remove] at ih
    by_cases dropped : key = gone
    · by_cases found : query = gone
      · rw [if_pos found] at ih ⊢
        simpa [remove, dropped] using ih
      · simp [remove, lookup, dropped, found, ih]
    · by_cases found : query = key
      · simp [remove, lookup, dropped, found]
      · simp [remove, lookup, dropped, found, ih]

theorem keys_put (fresh : Text) (item : α) (entries : Keyed α) (key : Text) :
    key ∈ (put fresh item entries).keys ↔ key = fresh ∨ key ∈ entries.keys := by
  induction entries with
  | nil => simp [put, keys]
  | cons entry tail ih =>
    obtain ⟨first, old⟩ := entry
    by_cases same : fresh = first
    · simp [put, keys, same]
    · by_cases before : fresh < first
      · simp [put, keys, same, before]
      · simp only [keys] at ih
        simp [put, keys, same, before, ih, or_left_comm]

theorem ordered_put (fresh : Text) (item : α) (entries : Keyed α) (ordered : entries.Ordered) :
    (put fresh item entries).Ordered := by
  induction entries with
  | nil => simp [put, Ordered, keys]
  | cons entry tail ih =>
    obtain ⟨key, old⟩ := entry
    have parts := List.pairwise_cons.mp ordered
    by_cases same : fresh = key
    · simpa [put, same, Ordered, keys] using ordered
    · by_cases before : fresh < key
      · simp only [put, same, before, if_true, if_false]
        refine List.pairwise_cons.mpr ⟨?_, ordered⟩
        intro other present
        rcases List.mem_cons.mp present with rfl | later
        · exact before
        · exact List.lt_trans before (parts.1 other later)
      · simp only [put, same, before, if_false]
        refine List.pairwise_cons.mpr ⟨?_, ih parts.2⟩
        intro other present
        rcases (keys_put fresh item tail other).mp present with rfl | later
        · exact Std.lt_of_le_of_ne (Std.not_lt.mp before) (Ne.symm same)
        · exact parts.1 other later

theorem ordered_remove (gone : Text) (entries : Keyed α) (ordered : entries.Ordered) :
    (remove gone entries).Ordered := by
  unfold Ordered keys remove at *
  exact ordered.sublist (List.filter_sublist.map _)

end Keyed
end ParamStore

import ParamStore.Keyed

set_option autoImplicit false

namespace ParamStore
namespace Keyed

variable {α : Type}

theorem lookup_mem (query : Text) (item : α) (entries : Keyed α)
    (found : entries.lookup query = some item) : (query, item) ∈ entries := by
  induction entries with
  | nil => cases found
  | cons entry tail ih =>
    obtain ⟨key, first⟩ := entry
    by_cases same : query = key
    · simp_all [lookup]
    · exact List.mem_cons_of_mem _ (ih (by simpa [lookup, same] using found))

theorem mem_keys_iff (entries : Keyed α) (key : Text) :
    key ∈ entries.keys ↔ (entries.lookup key).isSome := by
  induction entries with
  | nil => simp [keys, lookup]
  | cons entry tail ih =>
    obtain ⟨first, item⟩ := entry
    by_cases same : key = first
    · simp [keys, lookup, same]
    · simpa [keys, lookup, same] using ih

theorem mem_put (fresh : Text) (item : α) (entries : Keyed α) (entry : Text × α)
    (member : entry ∈ put fresh item entries) : entry = (fresh, item) ∨ entry ∈ entries := by
  induction entries with
  | nil => simpa [put] using member
  | cons first tail ih =>
    obtain ⟨key, old⟩ := first
    rw [put] at member
    split at member
    · rcases List.mem_cons.mp member with same | later
      · exact .inl same
      · exact .inr (List.mem_cons_of_mem _ later)
    · split at member
      · exact (List.mem_cons.mp member).imp_right id
      · rcases List.mem_cons.mp member with same | later
        · exact .inr (same ▸ List.mem_cons_self ..)
        · exact (ih later).imp_right (List.mem_cons_of_mem _)

theorem ordered_tail (key : Text) (item : α) (tail : Keyed α) (ordered : Ordered ((key, item) :: tail)) :
    tail.Ordered := (List.pairwise_cons.mp ordered).2

theorem ordered_head (key : Text) (item : α) (tail : Keyed α) (ordered : Ordered ((key, item) :: tail)) :
    tail.lookup key = none := by
  cases found : tail.lookup key with
  | none => rfl
  | some later =>
    have member := lookup_mem key later tail found
    have above := (List.pairwise_cons.mp ordered).1 key (List.mem_map.mpr ⟨(key, later), member, rfl⟩)
    exact absurd above (List.lt_irrefl key)

theorem ordered_lookup (entries : Keyed α) (ordered : entries.Ordered) (key : Text) (item : α)
    (member : (key, item) ∈ entries) : entries.lookup key = some item := by
  induction entries with
  | nil => cases member
  | cons entry tail ih =>
    obtain ⟨first, other⟩ := entry
    rcases List.mem_cons.mp member with same | later
    · cases same
      simp [lookup]
    · have found := ih (ordered_tail first other tail ordered) later
      have different : key ≠ first := by
        rintro rfl
        cases found.symm.trans (ordered_head key other tail ordered)
      rw [lookup, if_neg different, found]

theorem put_last (fresh : Text) (item : α) (before : Keyed α)
    (below : ∀ entry ∈ before, entry.1 < fresh) :
    put fresh item before = before ++ [(fresh, item)] := by
  induction before with
  | nil => rfl
  | cons entry tail ih =>
    obtain ⟨key, old⟩ := entry
    have first := below (key, old) (List.mem_cons_self ..)
    have rest := ih fun entry member => below entry (List.mem_cons_of_mem _ member)
    have different : fresh ≠ key := by
      rintro rfl
      exact List.lt_irrefl _ first
    have later : ¬ fresh < key := fun back => List.lt_irrefl _ (List.lt_trans back first)
    rw [put, if_neg different, if_neg later, rest]
    rfl

theorem put_all_mem (items : List (Text × α)) (before : Keyed α) (entry : Text × α)
    (member : entry ∈ items.foldl (fun entries item => put item.1 item.2 entries) before) :
    entry ∈ before ∨ entry ∈ items := by
  induction items generalizing before with
  | nil => exact .inl member
  | cons item rest ih =>
    rcases ih (put item.1 item.2 before) member with early | late
    · rcases mem_put item.1 item.2 before entry early with same | old
      · exact .inr (same ▸ List.mem_cons_self ..)
      · exact .inl old
    · exact .inr (List.mem_cons_of_mem _ late)

theorem of_list_mem (items : List (Text × α)) (entry : Text × α) (member : entry ∈ ofList items) :
    entry ∈ items := by
  rcases put_all_mem items [] entry member with none | present
  · cases none
  · exact present

theorem of_list_ordered (items : List (Text × α)) : (ofList items).Ordered := by
  have fold : ∀ before : Keyed α, before.Ordered →
      Ordered (items.foldl (fun entries item => put item.1 item.2 entries) before) := by
    induction items with
    | nil => exact fun before ordered => ordered
    | cons item rest ih =>
      exact fun before ordered => ih _ (ordered_put item.1 item.2 before ordered)
  exact fold [] List.Pairwise.nil

theorem of_list_self (entries : Keyed α) (ordered : entries.Ordered) : ofList entries = entries := by
  have fold : ∀ before : Keyed α, Ordered (before ++ entries) →
      entries.foldl (fun made item => put item.1 item.2 made) before = before ++ entries := by
    induction entries with
    | nil =>
      intro before _
      exact (List.append_nil before).symm
    | cons entry tail ih =>
      intro before whole
      obtain ⟨key, item⟩ := entry
      have below : ∀ other ∈ before, other.1 < key := by
        intro other member
        rw [Ordered, keys] at whole
        rw [List.map_append] at whole
        exact (List.pairwise_append.mp whole).2.2 other.1 (List.mem_map_of_mem member) key
          (List.mem_cons_self ..)
      have moved : before ++ (key, item) :: tail = (before ++ [(key, item)]) ++ tail := by simp
      rw [List.foldl_cons, put_last key item before below, moved]
      rw [moved] at whole
      exact ih (ordered_tail key item tail ordered) _ whole
  exact fold [] ordered

theorem lookup_append (key : Text) (first second : Keyed α) :
    lookup key (first ++ second) = (lookup key first).or (lookup key second) := by
  induction first with
  | nil => rfl
  | cons entry tail ih =>
    obtain ⟨other, item⟩ := entry
    by_cases same : key = other <;> simp [lookup, same, ih]

theorem put_all_lookup (items : List (Text × α)) (before : Keyed α) (key : Text) :
    lookup key (items.foldl (fun entries item => put item.1 item.2 entries) before) =
      (lookup key items.reverse).or (before.lookup key) := by
  induction items generalizing before with
  | nil => rfl
  | cons item rest ih =>
    obtain ⟨other, value⟩ := item
    rw [List.foldl_cons, ih, lookup_put, List.reverse_cons, lookup_append, Option.or_assoc]
    by_cases same : key = other <;> simp [lookup, same]

theorem of_list_lookup (items : List (Text × α)) (key : Text) :
    (ofList items).lookup key = lookup key items.reverse := by
  rw [ofList, put_all_lookup]
  exact Option.or_none

theorem lookup_below (key : Text) (entries : Keyed α) (below : ∀ other ∈ entries.keys, key < other) :
    entries.lookup key = none := by
  induction entries with
  | nil => rfl
  | cons entry tail ih =>
    obtain ⟨first, item⟩ := entry
    have different : key ≠ first := by
      rintro rfl
      exact List.lt_irrefl key (below key (List.mem_cons_self ..))
    rw [lookup, if_neg different]
    exact ih fun other member => below other (List.mem_cons_of_mem _ member)

theorem first_not_before (key other : Text) (item otherItem : α) (tail otherTail : Keyed α)
    (ordered : Ordered ((other, otherItem) :: otherTail))
    (same : lookup key ((key, item) :: tail) = lookup key ((other, otherItem) :: otherTail)) :
    ¬ key < other := by
  intro before
  rw [lookup_below key ((other, otherItem) :: otherTail), lookup, if_pos rfl] at same
  · cases same
  · intro third member
    rcases List.mem_cons.mp member with rfl | later
    · exact before
    · exact List.lt_trans before ((List.pairwise_cons.mp ordered).1 third later)

theorem ordered_ext (entries others : Keyed α) (ordered : entries.Ordered)
    (othersOrdered : others.Ordered) (same : ∀ key, entries.lookup key = others.lookup key) :
    entries = others := by
  induction entries generalizing others with
  | nil =>
    cases others with
    | nil => rfl
    | cons entry tail =>
      have absent := same entry.1
      simp [lookup] at absent
  | cons entry tail ih =>
    cases others with
    | nil =>
      have absent := same entry.1
      simp [lookup] at absent
    | cons otherEntry otherTail =>
      obtain ⟨key, item⟩ := entry
      obtain ⟨other, otherItem⟩ := otherEntry
      have notBefore := first_not_before key other item otherItem tail otherTail othersOrdered
        (same key)
      have notAfter := first_not_before other key otherItem item otherTail tail ordered
        (same other).symm
      obtain rfl : key = other := Std.le_antisymm (Std.not_lt.mp notAfter) (Std.not_lt.mp notBefore)
      have items := same key
      simp only [lookup, if_true, Option.some.injEq] at items
      have parts := List.pairwise_cons.mp ordered
      have otherParts := List.pairwise_cons.mp othersOrdered
      rw [items, ih otherTail parts.2 otherParts.2]
      intro query
      by_cases first : query = key
      · rw [first, lookup_below key tail parts.1, lookup_below key otherTail otherParts.1]
      · simpa [lookup, first] using same query

theorem put_present (key : Text) (item : α) (entries : Keyed α) (ordered : entries.Ordered)
    (found : entries.lookup key = some item) : put key item entries = entries := by
  refine ordered_ext _ _ (ordered_put key item entries ordered) ordered fun query => ?_
  rw [lookup_put]
  split
  · rename_i same
    rw [same, found]
  · rfl

end Keyed
end ParamStore

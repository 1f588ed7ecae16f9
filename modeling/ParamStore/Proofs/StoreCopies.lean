import ParamStore.Proofs.ContentAddress

set_option autoImplicit false

namespace ParamStore
namespace Store

inductive Reaches (store : Store) (roots : List Identifier) : Identifier → Prop where
  | root (id : Identifier) (named : id ∈ roots) : Reaches store roots id
  | inside (id child : Identifier) (entries : Entries) (reached : Reaches store roots id)
      (read : store.lookup id = some entries) (named : child ∈ entries.tables) :
      Reaches store roots child

theorem reaches_keeps (before after : Store) (keeps : Keeps before after) (roots : List Identifier)
    (id : Identifier) (reached : Reaches before roots id) : Reaches after roots id := by
  induction reached with
  | root id named => exact .root id named
  | inside id child entries _ read named ih =>
    exact .inside id child entries ih (keeps id entries read) named

theorem reaches_through (store : Store) (roots inner : List Identifier)
    (each : ∀ id ∈ inner, Reaches store roots id) (id : Identifier) (reached : Reaches store inner id) :
    Reaches store roots id := by
  induction reached with
  | root id named => exact each id named
  | inside id child entries _ read named ih => exact .inside id child entries ih read named

theorem reached_held (source target : Store) (grown : Grown target.contents)
    (agrees : Agrees source target) (roots : List Identifier) (held : target.Holds roots)
    (id : Identifier) (reached : Reaches source roots id) : target.contains id = true := by
  induction reached with
  | root id named => exact held id named
  | inside id child entries _ read named ih =>
    obtain ⟨other, found⟩ := (contains_iff target id).mp ih
    have same := agrees id entries other read found
    subst same
    exact grown_holds target grown id entries found child named

-- What the later store has beyond the earlier one was reached in the source, and is as it is there.
def Adds (source : Store) (roots : List Identifier) (before after : Store) : Prop :=
  ∀ id entries, after.lookup id = some entries → before.lookup id = some entries ∨
    (Reaches source roots id ∧ source.lookup id = some entries)

theorem adds_refl (source : Store) (roots : List Identifier) (store : Store) :
    Adds source roots store store := fun _ _ found => .inl found

theorem adds_trans (source : Store) (roots : List Identifier) (first second third : Store)
    (early : Adds source roots first second) (late : Adds source roots second third) :
    Adds source roots first third := by
  intro id entries found
  rcases late id entries found with before | fresh
  · exact early id entries before
  · exact .inr fresh

theorem adds_widen (inner outer : Store) (keeps : Keeps inner outer) (ids roots : List Identifier)
    (each : ∀ id ∈ ids, Reaches outer roots id) (before after : Store)
    (adds : Adds inner ids before after) : Adds outer roots before after := by
  intro id entries found
  rcases adds id entries found with old | ⟨reached, read⟩
  · exact .inl old
  · exact .inr ⟨reaches_through outer roots ids each id (reaches_keeps inner outer keeps ids id reached),
      keeps id entries read⟩

theorem adopt_all_adds (source : Store) (copy : Store → Identifier → Except Error Store)
    (ids : List Identifier) (each : ∀ id before after, copy before id = .ok after →
      Adds source [id] before after)
    (before after : Store) (done : ids.foldlM copy before = .ok after) :
    Adds source ids before after := by
  induction ids generalizing before with
  | nil =>
    cases done
    exact adds_refl source [] _
  | cons first rest ih =>
    rw [List.foldlM_cons] at done
    obtain ⟨next, copied, later⟩ := (Outcome.bind_ok _ _ _).mp done
    refine adds_trans source _ before next after ?_ ?_
    · refine adds_widen source source (keeps_refl source) [first] _ (fun id named => ?_) before next
        (each first before next copied)
      exact .root id (List.mem_singleton.mp named ▸ List.mem_cons_self ..)
    · exact adds_widen source source (keeps_refl source) rest _
        (fun id named => .root id (List.mem_cons_of_mem _ named)) next after (ih next later)

theorem adopt_adds (source : List (Identifier × Entries)) (sound : Grown source)
    (before after : Store) (id : Identifier) (done : adopt source before id = .ok after) :
    Adds ⟨source⟩ [id] before after := by
  induction sound generalizing before after id with
  | nil =>
    rw [adopt] at done
    split at done
    · cases done
      exact adds_refl _ _ before
    · cases done
  | cons newest older _ fresh _ ih =>
    have keeps := keeps_newest newest older fresh
    rw [adopt] at done
    split at done
    · cases done
      exact adds_refl _ _ before
    · split at done
      · rename_i same
        obtain ⟨filled, copied, made⟩ := (Outcome.bind_ok _ _ _).mp done
        cases made
        have read : lookup ⟨(newest.identifier, newest) :: older⟩ id = some newest := by
          simp [lookup, lookupIn, same]
        have here : Reaches ⟨(newest.identifier, newest) :: older⟩ [id] id :=
          .root id (List.mem_singleton_self id)
        have below := adopt_all_adds ⟨older⟩ (fun filled child => adopt older filled child)
          newest.tables (fun child first last copied => ih first last child copied) before filled copied
        refine adds_trans _ [id] before filled _ ?_ ?_
        · exact adds_widen _ _ keeps newest.tables [id]
            (fun child named => .inside id child newest here read named) before filled below
        · intro query entries found
          rw [lookup_insert] at found
          split at found
          · rename_i taken
            cases found
            exact .inr ⟨taken.1 ▸ here, taken.1 ▸ read⟩
          · exact .inl found
      · exact adds_widen _ _ keeps [id] [id] (fun child named => .root child named) before after
          (ih before after id done)

theorem adopt_below_adds (source target filled : Store) (sound : Grown source.contents)
    (entries : Entries) (done : adoptBelow source target entries = .ok filled) :
    Adds source entries.tables target filled :=
  adopt_all_adds source _ entries.tables
    (fun id before after copied => adopt_adds source.contents sound before after id copied)
    target filled done

end Store
end ParamStore

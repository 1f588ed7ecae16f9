import ParamStore.Store

set_option autoImplicit false

namespace ParamStore
namespace Store

-- Contents that were stored one after the other. A new one takes an identifier that is still free,
-- its own, and the tables inside it are there before it.
inductive Grown : List (Identifier × Entries) → Prop where
  | nil : Grown []
  | cons (entries : Entries) (older : List (Identifier × Entries)) (grown : Grown older)
      (fresh : lookupIn entries.identifier older = none)
      (closed : ∀ child ∈ entries.tables, (lookupIn child older).isSome) :
      Grown ((entries.identifier, entries) :: older)

def Keeps (before after : Store) : Prop :=
  ∀ id entries, before.lookup id = some entries → after.lookup id = some entries

def Holds (store : Store) (ids : List Identifier) : Prop := ∀ id ∈ ids, store.contains id = true

theorem grown_lookup (contents : List (Identifier × Entries)) (grown : Grown contents)
    (id : Identifier) (entries : Entries) (found : lookupIn id contents = some entries) :
    id = entries.identifier ∧ ∀ child ∈ entries.tables, (lookupIn child contents).isSome := by
  induction grown with
  | nil => cases found
  | cons newest older _ _ closed ih =>
    have widen : ∀ child, (lookupIn child older).isSome →
        (lookupIn child ((newest.identifier, newest) :: older)).isSome := by
      intro child stored
      by_cases same : child = newest.identifier <;> simp [lookupIn, same, stored]
    by_cases same : id = newest.identifier
    · have exact : newest = entries := by simpa [lookupIn, same] using found
      subst exact
      exact ⟨same, fun child member => widen child (closed child member)⟩
    · obtain ⟨named, inside⟩ := ih (by simpa [lookupIn, same] using found)
      exact ⟨named, fun child member => widen child (inside child member)⟩

-- No identifier is stored twice, so the list of contents is the map that lookup reads.
theorem grown_mem_iff (contents : List (Identifier × Entries)) (grown : Grown contents)
    (id : Identifier) (entries : Entries) :
    (id, entries) ∈ contents ↔ lookupIn id contents = some entries := by
  induction grown with
  | nil => simp [lookupIn]
  | cons newest older _ fresh _ ih =>
    by_cases same : id = newest.identifier
    · subst same
      have absent : (newest.identifier, entries) ∉ older := by
        rw [ih, fresh]
        simp
      simp [lookupIn, absent, eq_comm]
    · simp [lookupIn, same, ih]

theorem keeps_refl (store : Store) : Keeps store store := fun _ _ found => found

theorem keeps_newest (newest : Entries) (older : List (Identifier × Entries))
    (fresh : lookupIn newest.identifier older = none) :
    Keeps ⟨older⟩ ⟨(newest.identifier, newest) :: older⟩ := by
  intro id entries found
  have different : id ≠ newest.identifier := by
    rintro rfl
    cases fresh.symm.trans found
  simpa [lookup, lookupIn, different] using found

theorem keeps_trans (first second third : Store) (early : Keeps first second)
    (late : Keeps second third) : Keeps first third :=
  fun id entries found => late id entries (early id entries found)

theorem contains_iff (store : Store) (id : Identifier) :
    store.contains id = true ↔ ∃ entries, store.lookup id = some entries :=
  Option.isSome_iff_exists

theorem entries_ok (store : Store) (id : Identifier) (entries : Entries) :
    store.entries id = .ok entries ↔ store.lookup id = some entries := by
  rw [Store.entries]
  cases store.lookup id <;> simp

theorem keeps_contains (before after : Store) (keeps : Keeps before after) (id : Identifier)
    (stored : before.contains id = true) : after.contains id = true := by
  obtain ⟨entries, found⟩ := (contains_iff before id).mp stored
  exact (contains_iff after id).mpr ⟨entries, keeps id entries found⟩

theorem keeps_holds (before after : Store) (keeps : Keeps before after) (ids : List Identifier)
    (holds : before.Holds ids) : after.Holds ids :=
  fun id member => keeps_contains before after keeps id (holds id member)

theorem holds_append (store : Store) (first second : List Identifier) :
    store.Holds (first ++ second) ↔ store.Holds first ∧ store.Holds second := by
  simp only [Holds, List.mem_append, or_imp, forall_and]

theorem grown_holds (store : Store) (grown : Grown store.contents) (id : Identifier)
    (entries : Entries) (found : store.lookup id = some entries) : store.Holds entries.tables :=
  (grown_lookup store.contents grown id entries found).2

theorem lookup_insert (store : Store) (id query : Identifier) (entries : Entries) :
    (store.insert id entries).lookup query =
      if query = id ∧ store.contains id = false then some entries else store.lookup query := by
  rw [insert]
  cases taken : store.contains id with
  | true => simp
  | false => by_cases same : query = id <;> simp [lookup, lookupIn, same]

theorem insert_keeps (store : Store) (id : Identifier) (entries : Entries) :
    Keeps store (store.insert id entries) := by
  intro query stored found
  have taken : store.contains query = true := (contains_iff store query).mpr ⟨stored, found⟩
  rw [lookup_insert, if_neg]
  · exact found
  · rintro ⟨same, free⟩
    rw [← same, taken] at free
    cases free

theorem insert_contains (store : Store) (id : Identifier) (entries : Entries) :
    (store.insert id entries).contains id = true := by
  cases taken : store.contains id with
  | true => exact keeps_contains _ _ (insert_keeps store id entries) id taken
  | false =>
    have absent : store.lookup id = none := by simpa [contains] using taken
    simp [contains, lookup_insert, absent]

theorem insert_grown (store : Store) (entries : Entries) (grown : Grown store.contents)
    (closed : store.Holds entries.tables) :
    Grown (store.insert entries.identifier entries).contents := by
  rw [insert]
  cases taken : store.contains entries.identifier with
  | true => simpa using grown
  | false =>
    have fresh : lookupIn entries.identifier store.contents = none := by
      simpa [contains, lookup] using taken
    simpa using Grown.cons entries store.contents grown fresh closed

structure Grows (before after : Store) : Prop where
  grown : Grown after.contents
  keeps : Keeps before after

theorem grows_refl (store : Store) (grown : Grown store.contents) : Grows store store :=
  ⟨grown, keeps_refl store⟩

theorem grows_trans (first second third : Store) (early : Grows first second)
    (late : Grows second third) : Grows first third :=
  ⟨late.grown, keeps_trans first second third early.keeps late.keeps⟩

theorem insert_grows (store : Store) (entries : Entries) (grown : Grown store.contents)
    (closed : store.Holds entries.tables) :
    Grows store (store.insert entries.identifier entries) :=
  ⟨insert_grown store entries grown closed, insert_keeps store entries.identifier entries⟩

theorem adopt_all (copy : Store → Identifier → Except Error Store) (ids : List Identifier)
    (target : Store) (grown : Grown target.contents)
    (each : ∀ id ∈ ids, ∀ before, Grown before.contents →
      ∃ after, copy before id = .ok after ∧ Grows before after ∧ after.contains id = true) :
    ∃ filled, ids.foldlM copy target = .ok filled ∧ Grows target filled ∧ filled.Holds ids := by
  induction ids generalizing target with
  | nil => exact ⟨target, rfl, grows_refl target grown, fun _ member => by cases member⟩
  | cons first rest ih =>
    obtain ⟨next, copied, grows, present⟩ := each first (List.mem_cons_self ..) target grown
    obtain ⟨last, done, later, holds⟩ :=
      ih next grows.grown fun id member => each id (List.mem_cons_of_mem _ member)
    refine ⟨last, ?_, grows_trans target next last grows later, ?_⟩
    · simpa [List.foldlM_cons, copied, bind, Except.bind] using done
    · intro id member
      rcases List.mem_cons.mp member with rfl | behind
      · exact keeps_contains next last later.keeps id present
      · exact holds id behind

theorem adopt_grows (source : List (Identifier × Entries)) (sound : Grown source) (target : Store)
    (grown : Grown target.contents) (id : Identifier) (stored : (lookupIn id source).isSome) :
    ∃ filled, adopt source target id = .ok filled ∧ Grows target filled ∧
      filled.contains id = true := by
  induction sound generalizing target id with
  | nil => cases stored
  | cons newest older _ _ closed ih =>
    rw [adopt]
    cases taken : target.contains id with
    | true => exact ⟨target, by simp, grows_refl target grown, taken⟩
    | false =>
      by_cases same : id = newest.identifier
      · obtain ⟨filled, copied, grows, holds⟩ := adopt_all (fun filled child => adopt older filled child)
          newest.tables target grown fun child member before kept =>
            ih before kept child (closed child member)
        refine ⟨filled.insert id newest, ?_, ?_, insert_contains filled id newest⟩
        · simp [same, copied, bind, Except.bind, pure, Except.pure]
        · rw [same]
          exact grows_trans target filled _ grows (insert_grows filled newest grows.grown holds)
      · simp only [same, if_false]
        exact ih target grown id (by simpa [lookupIn, same] using stored)

theorem adopt_below_grows (source target : Store) (sound : Grown source.contents)
    (grown : Grown target.contents) (entries : Entries) (holds : source.Holds entries.tables) :
    ∃ filled, adoptBelow source target entries = .ok filled ∧ Grows target filled ∧
      filled.Holds entries.tables :=
  adopt_all (fun filled child => adopt source.contents filled child) entries.tables target grown
    fun child member before kept => adopt_grows source.contents sound before kept child
      (holds child member)

end Store
end ParamStore

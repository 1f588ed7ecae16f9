import Mathlib.Data.List.Dedup
import Mathlib.Data.List.Induction
import ParamStore.Proofs.ClearedValues
import ParamStore.Proofs.ReadDocuments
import ParamStore.Proofs.Rehoming

set_option autoImplicit false

namespace ParamStore

def Binding.kept? (binding : Binding) : Option (Text × Flagged Value) :=
  if binding.item.inProlog then none else binding.name.map (·, binding.item)

theorem Binding.kept_iff (binding : Binding) (name : Text) (item : Flagged Value) :
    binding.kept? = some (name, item) ↔
      binding.name = some name ∧ binding.item = item ∧ item.inProlog = false := by
  obtain ⟨bound, ⟨inProlog, value⟩, position⟩ := binding
  cases inProlog <;> cases bound <;> simp [kept?] <;> grind

namespace Document

def kept (document : Document) : List (Text × Flagged Value) :=
  document.bindings.filterMap Binding.kept?

-- The contents of all tables inside what is kept, also where a later binding of the name follows.
def nested (document : Document) : List Entries := Value.entriesNested document.kept

def lastKept (document : Document) (name : Text) : Option Binding :=
  (document.bindings.filter fun binding =>
    binding.name == some name && !binding.item.inProlog).getLast?

end Document

namespace Value

theorem entries_plain_iff (entries : List (Text × Flagged Value)) :
    EntriesPlain entries ↔ ∀ entry ∈ entries,
      entry.1.isKey = true ∧ entry.2.inProlog = false ∧ entry.2.value.Plain := by
  induction entries with
  | nil => simp [EntriesPlain]
  | cons entry tail ih => simp [EntriesPlain, ih, and_assoc]

theorem content_append (before : Entries) (first second : List (Text × Flagged Value)) :
    content before (first ++ second) = content (content before first) second := by
  induction first generalizing before with
  | nil => rfl
  | cons entry tail ih => exact ih (before.put entry.1 entry.2.value.cell)

end Value

theorem encode_bindings_kept (bindings : List Binding) (entries : Entries) (before other : Progress)
    (same : before.store = other.store) :
    Matches (encodeBindings entries bindings before)
      (Value.encodeEntries entries (bindings.filterMap Binding.kept?) other) := by
  induction bindings generalizing entries before other with
  | nil => exact ⟨same, rfl⟩
  | cons binding tail ih =>
    obtain ⟨bound, ⟨inProlog, value⟩, position⟩ := binding
    cases bound with
    | none =>
      rw [List.filterMap_cons_none (by simp [Binding.kept?])]
      exact ih entries before.countUnnamed other same
    | some name =>
      cases inProlog with
      | true => exact ih entries before.countProlog other same
      | false =>
        have first := Value.encode_store value before other same
        have head : Binding.kept? ⟨some name, ⟨false, value⟩, position⟩ = some (name, ⟨false, value⟩) :=
          rfl
        rw [List.filterMap_cons_some head]
        simp only [encodeBindings, Value.encodeEntries, Bool.false_eq_true, if_false]
        generalize value.encode before = made at first
        generalize value.encode other = again at first
        obtain ⟨next, outcome⟩ := made
        obtain ⟨otherNext, otherOutcome⟩ := again
        obtain ⟨stores, outcomes⟩ := first
        cases outcomes
        cases outcome with
        | error error => exact ⟨stores, rfl⟩
        | ok cell =>
          simp only at stores ⊢
          rw [← stores]
          cases entries.insert next.store name cell with
          | error error => exact ⟨stores, rfl⟩
          | ok after => exact ih after next.countBinding otherNext stores

namespace Store

-- Contents are stored under their own identifiers, so lookup finds each that is there.
theorem grown_listed_iff (store : Store) (grown : Grown store.contents) (entries : Entries) :
    entries ∈ store.contents.map Prod.snd ↔ store.lookup entries.identifier = some entries := by
  constructor
  · intro member
    obtain ⟨⟨id, _⟩, present, rfl⟩ := List.mem_map.mp member
    have read := (grown_mem_iff _ grown id _).mp present
    exact (grown_lookup _ grown id _ read).1 ▸ read
  · intro found
    exact List.mem_map.mpr ⟨(_, entries), (grown_mem_iff _ grown _ entries).mpr found, rfl⟩

theorem stores_lookup (nested : List Entries) (before after : Store) (grown : Grown before.contents)
    (stores : Stores nested before after)
    (apart : Entries.Apart (before.contents.map Prod.snd ++ nested)) (id : Identifier)
    (entries : Entries) :
    after.lookup id = some entries ↔
      before.lookup id = some entries ∨ (entries ∈ nested ∧ id = entries.identifier) := by
  have within := grown_within before grown _ (List.subset_append_left _ nested)
  obtain ⟨afterWithin, stored⟩ := stores.stored _ apart within (List.subset_append_right _ _)
  constructor
  · intro found
    obtain ⟨rfl, member⟩ := afterWithin id entries found
    rcases List.mem_append.mp member with old | fresh
    · exact .inl ((grown_listed_iff before grown entries).mp old)
    · exact .inr ⟨fresh, rfl⟩
  · rintro (old | ⟨member, rfl⟩)
    · exact stores.keeps id entries old
    · exact stored entries member

theorem grown_contents_nodup (contents : List (Identifier × Entries)) (grown : Grown contents) :
    (contents.map Prod.snd).Nodup := by
  have named : (contents.map Prod.snd).map Entries.identifier = contents.map Prod.fst := by
    rw [List.map_map]
    refine List.map_congr_left fun entry member => ?_
    exact (grown_lookup contents grown entry.1 entry.2
      ((grown_mem_iff contents grown entry.1 entry.2).mp member)).1.symm
  exact .of_map Entries.identifier (named ▸ grown_nodup contents grown)

theorem stores_size (nested : List Entries) (before after : Store) (grown : Grown before.contents)
    (afterGrown : Grown after.contents) (stores : Stores nested before after)
    (apart : Entries.Apart (before.contents.map Prod.snd ++ nested)) :
    after.size = (before.contents.map Prod.snd ++ nested).dedup.length := by
  have perm : (after.contents.map Prod.snd).Perm (before.contents.map Prod.snd ++ nested).dedup := by
    refine (List.perm_ext_iff_of_nodup (grown_contents_nodup _ afterGrown)
      (List.nodup_dedup _)).mpr fun entries => ?_
    rw [List.mem_dedup, List.mem_append, grown_listed_iff after afterGrown,
      grown_listed_iff before grown, stores_lookup nested before after grown stores apart]
    simp
  rw [size, ← perm.length_eq, List.length_map]

-- The same contents may be stored on top of whatever another store had. A set that they back looks the
-- same from there.
theorem stores_alike (nested : List Entries) (fresh before after : Store)
    (freshGrown : Grown fresh.contents) (grown : Grown before.contents)
    (afterGrown : Grown after.contents) (anew : Stores nested .empty fresh)
    (stores : Stores nested before after)
    (apart : Entries.Apart (before.contents.map Prod.snd ++ nested)) (set copy : ParameterSet)
    (same : set.entries = copy.entries) (there : fresh.Holds copy.entries.tables)
    (here : after.Holds copy.entries.tables) : ParameterSet.Alike fresh copy after set := by
  have within := grown_within before grown _ (List.subset_append_left _ nested)
  have nothing : empty.Within (before.contents.map Prod.snd ++ nested) := by rintro _ _ ⟨⟩
  have known := List.subset_append_right (before.contents.map Prod.snd) nested
  have agrees := within_agrees _ apart fresh after (anew.stored _ apart nothing known).1
    (stores.stored _ apart within known).1
  exact ParameterSet.alike_of_agrees fresh after freshGrown afterGrown agrees copy set same there here

end Store

structure Depot.Gains (before after : Depot) (home : Nat) (nested : List Entries) : Prop where
  lookup : ∀ id entries, (after.store home).lookup id = some entries ↔
    (before.store home).lookup id = some entries ∨ (entries ∈ nested ∧ id = entries.identifier)
  size : (after.store home).size =
    ((before.store home).contents.map Prod.snd ++ nested).dedup.length
  others : ∀ number, number ≠ home → after.store number = before.store number

namespace Depot

theorem stores_gains (before after : Depot) (sound : before.Sound) (home : Nat)
    (nested : List Entries) (grows : Grows before after)
    (stores : Store.Stores nested (before.store home) (after.store home))
    (others : ∀ number, number ≠ home → after.store number = before.store number)
    (apart : Entries.Apart ((before.store home).contents.map Prod.snd ++ nested)) :
    Gains before after home nested :=
  ⟨Store.stores_lookup nested _ _ (sound home) stores apart,
    Store.stores_size nested _ _ (sound home) (grows.stores home).grown stores apart, others⟩

end Depot

namespace Table

theorem materialize_outcome (table : Table) (plain : Value.EntriesPlain table.entries)
    (depot : Depot) (home : Nat) :
    (table.materialize depot home).2 = .ok ⟨home, Value.content .empty table.entries, none⟩ := by
  have encoded := Value.encode_entries_content .empty table.entries (.start (depot.store home)) plain
    (Entries.empty_tables _)
  simp only [materialize, encoded.outcome]
  rfl

theorem materialize_plain (table : Table) (plain : Value.EntriesPlain table.entries) (depot : Depot)
    (sound : depot.Sound) (home : Nat) (inside : home < depot.stores.length) :
    ∃ after, table.materialize depot home =
        (after, .ok ⟨home, Value.content .empty table.entries, none⟩) ∧
      Depot.Grows depot after ∧
      (after.store home).Holds (Value.content .empty table.entries).tables ∧
      Store.Stores (Value.entriesNested table.entries) (depot.store home) (after.store home) ∧
      ∀ number, number ≠ home → after.store number = depot.store number := by
  have encoded := Value.encode_entries_content .empty table.entries (.start (depot.store home)) plain
    (Entries.empty_tables _)
  have here : (table.materialize depot home).1.store home =
      (Value.encodeEntries .empty table.entries (.start (depot.store home))).1.store := by
    rw [materialize, Depot.store_set_store _ home home _ inside, if_pos rfl]
  refine ⟨(table.materialize depot home).1, Prod.ext rfl (table.materialize_outcome plain depot home),
    (Depot.materialize_table_made depot sound home inside table).grows, ?_, ?_, ?_⟩
  · rw [here]
    exact encoded.holds
  · rw [here]
    exact encoded.stores
  · intro number other
    rw [materialize, Depot.store_set_store _ home number _ inside, if_neg other]

end Table

namespace Document

theorem materialize_kept (document : Document) (depot : Depot) (home : Nat) :
    (document.materialize depot home).1 = (Table.materialize ⟨document.kept⟩ depot home).1 ∧
      (document.materialize depot home).2.map Prod.fst =
        (Table.materialize ⟨document.kept⟩ depot home).2 := by
  obtain ⟨stores, outcomes⟩ := encode_bindings_kept document.bindings .empty
    (.start (depot.store home)) (.start (depot.store home)) rfl
  simp only [materialize, Table.materialize, kept]
  rw [stores, ← outcomes]
  generalize encodeBindings .empty document.bindings (.start (depot.store home)) = made
  obtain ⟨last, outcome⟩ := made
  cases outcome <;> exact ⟨rfl, rfl⟩

theorem kept_plain (document : Document) (sound : document.Sound) :
    Value.EntriesPlain document.kept := by
  refine (Value.entries_plain_iff _).mpr ?_
  rintro ⟨name, item⟩ member
  obtain ⟨binding, bound, made⟩ := List.mem_filterMap.mp member
  obtain ⟨named, rfl, unflagged⟩ := (Binding.kept_iff binding name item).mp made
  obtain ⟨canonical, key⟩ := sound binding bound
  exact ⟨key name named, unflagged, Value.canonical_plain _ canonical⟩

-- The bindings are taken over one after the other, so the last of a name wins.
theorem kept_lookup (document : Document) (name : Text) :
    (Value.content .empty document.kept).lookup name =
      (document.lastKept name).map fun binding => binding.item.value.cell := by
  rw [kept, lastKept]
  induction document.bindings using List.reverseRecOn with
  | nil => rfl
  | append_singleton before binding ih =>
    obtain ⟨bound, ⟨inProlog, value⟩, position⟩ := binding
    rw [List.filterMap_append, List.filter_append, Value.content_append]
    cases inProlog with
    | true => simpa [Binding.kept?, Value.content] using ih
    | false =>
      cases bound with
      | none => simpa [Binding.kept?, Value.content] using ih
      | some key =>
        by_cases same : key = name
        · subst same
          simp [Binding.kept?, Value.content, Entries.lookup, Entries.put, Keyed.lookup_put]
        · have other : ¬ name = key := fun equal => same equal.symm
          simpa [Binding.kept?, Value.content, Entries.lookup, Entries.put, Keyed.lookup_put, same,
            other] using ih

theorem last_kept_none (document : Document) (name : Text) :
    document.lastKept name = none ↔
      ∀ binding ∈ document.bindings, binding.name = some name → binding.item.inProlog = true := by
  rw [lastKept, List.getLast?_eq_none_iff, List.filter_eq_nil_iff]
  simp

structure Makes (document : Document) (entries : Entries) : Prop where
  keys : ∀ name, name ∈ entries.keys ↔
    ∃ binding ∈ document.bindings, binding.name = some name ∧ binding.item.inProlog = false
  cells : ∀ name binding, document.lastKept name = some binding →
    ∃ cell, entries.lookup name = some cell ∧
      ∀ before, (binding.item.value.encode before).2 = .ok cell

theorem kept_makes (document : Document) (sound : document.Sound) :
    document.Makes (Value.content .empty document.kept) where
  keys name := by
    rw [Entries.keys, Keyed.mem_keys_iff, ← Entries.lookup, kept_lookup, Option.isSome_map,
      Option.isSome_iff_ne_none, ne_eq, last_kept_none]
    simp
  cells name binding last := by
    refine ⟨binding.item.value.cell, by rw [kept_lookup, last]; rfl, fun before => ?_⟩
    have member := (List.mem_filter.mp (List.mem_of_getLast? last)).1
    have plain := Value.canonical_plain _ (sound binding member).1
    exact (Value.encode_cell binding.item.value before plain).outcome

theorem materialize_outcome (document : Document) (sound : document.Sound) (depot : Depot)
    (home : Nat) : ∃ tally, (document.materialize depot home).2 =
      .ok (⟨home, Value.content .empty document.kept, none⟩, tally) := by
  have outcome := (materialize_kept document depot home).2
  rw [Table.materialize_outcome ⟨document.kept⟩ (kept_plain document sound)] at outcome
  obtain ⟨⟨set, tally⟩, made, rfl⟩ := (Outcome.map_ok _ _ _).mp outcome
  exact ⟨tally, made⟩

theorem materialize_sound (document : Document) (sound : document.Sound) (depot : Depot)
    (stores : depot.Sound) (home : Nat) (inside : home < depot.stores.length) :
    ∃ after tally, document.materialize depot home =
        (after, .ok (⟨home, Value.content .empty document.kept, none⟩, tally)) ∧
      Depot.Grows depot after ∧
      (after.store home).Holds (Value.content .empty document.kept).tables ∧
      Store.Stores document.nested (depot.store home) (after.store home) ∧
      ∀ number, number ≠ home → after.store number = depot.store number := by
  obtain ⟨after, made, rest⟩ :=
    Table.materialize_plain ⟨document.kept⟩ (kept_plain document sound) depot stores home inside
  obtain ⟨tally, outcome⟩ := materialize_outcome document sound depot home
  have filled := (materialize_kept document depot home).1
  rw [made] at filled
  exact ⟨after, tally, Prod.ext filled outcome, rest⟩

theorem read_materialize (options : ParseOptions) (source : Text) (document : Document)
    (done : read options source = .ok document) :
    ∃ fresh copy count, document.materialize ⟨[.empty]⟩ 0 = (fresh, .ok (copy, count)) ∧
      ∀ session : Session, session.Reachable → ∀ store home,
        session.handles.lookup store = some home →
        Entries.Apart ((session.depot.store home).contents.map Prod.snd ++ document.nested) →
        ∃ after set tally, document.materialize session.depot home = (after, .ok (set, tally)) ∧
          set.home = home ∧ document.Makes set.entries ∧
          set.id = copy.id ∧ ParameterSet.Alike (fresh.store 0) copy (after.store home) set ∧
          Depot.Gains session.depot after home document.nested ∧
          (fresh.store 0).size = document.nested.dedup.length := by
  have sound := read_sound options source document done
  have clean : Depot.Sound ⟨[.empty]⟩ := by
    intro number
    cases number <;> exact .nil
  obtain ⟨fresh, count, anew, freshGrows, freshHolds, freshStores, _⟩ :=
    materialize_sound document sound ⟨[.empty]⟩ clean 0 Nat.zero_lt_one
  refine ⟨fresh, _, count, anew, fun session reachable store home named apart => ?_⟩
  have known := Session.reachable_sound session reachable
  obtain ⟨after, tally, made, grows, holds, stores, others⟩ :=
    materialize_sound document sound session.depot known.depot home (known.handles store home named)
  refine ⟨after, _, tally, made, rfl, kept_makes document sound, rfl, ?_, ?_, ?_⟩
  · exact Store.stores_alike document.nested _ _ _ (freshGrows.stores 0).grown (known.depot home)
      (grows.stores home).grown freshStores stores apart _ _ rfl freshHolds holds
  · exact Depot.stores_gains _ _ known.depot home _ grows stores others apart
  · exact Store.stores_size document.nested .empty _ .nil (freshGrows.stores 0).grown freshStores
      (Entries.apart_subset _ _ apart (List.subset_append_right _ _))

def replacedSource : Text :=
  "a: \x7bx: nil\x7d BEGIN_PROLOG b: true END_PROLOG true a: \x7by: \x7bz: nil\x7d\x7d".toList

def replaced : Document :=
  ⟨[⟨some ['a'], ⟨false, .table [(['x'], ⟨false, .nil⟩)]⟩, ⟨1, 1⟩⟩,
    ⟨some ['b'], ⟨true, .bool true⟩, ⟨1, 26⟩⟩, ⟨none, ⟨false, .bool true⟩, ⟨1, 45⟩⟩,
    ⟨some ['a'], ⟨false, .table [(['y'], ⟨false, .table [(['z'], ⟨false, .nil⟩)]⟩)]⟩, ⟨1, 50⟩⟩], [], []⟩

def supplied : Session :=
  Session.empty.run [.openStore ['r'], .create ['p'] ['r'], .put ['p'] ['q', '.', 'z'] .nil ()]

theorem read_materialize_replaced :
    read .strict replacedSource = .ok replaced ∧ supplied.Reachable ∧
      supplied.handles.lookup ['r'] = some 0 ∧
      Entries.Apart ((supplied.depot.store 0).contents.map Prod.snd ++ replaced.nested) ∧
      ∃ after set tally, replaced.materialize supplied.depot 0 = (after, .ok (set, tally)) ∧
        ['a'] ∈ set.keys ∧ ['b'] ∉ set.keys ∧ (after.store 0).size = 3 := by
  have done : read .strict replacedSource = .ok replaced := by decide +kernel
  have reachable : supplied.Reachable :=
    Session.leads_run .empty .empty .refl _
      (Session.permits_plain _ _ (by simp [Operation.sets, Ty.setsIn]))
  have named : supplied.handles.lookup ['r'] = some 0 := by decide +kernel
  have apart : Entries.Apart ((supplied.depot.store 0).contents.map Prod.snd ++ replaced.nested) := by
    decide +kernel
  obtain ⟨_, _, _, _, each⟩ := read_materialize .strict replacedSource replaced done
  obtain ⟨after, set, tally, made, _, makes, _, _, gains, _⟩ :=
    each supplied reachable ['r'] 0 named apart
  refine ⟨done, reachable, named, apart, after, set, tally, made, ?_, ?_, ?_⟩
  · exact (makes.keys ['a']).mpr ⟨_, List.mem_cons_self .., rfl, rfl⟩
  · rw [ParameterSet.keys, makes.keys]
    simp [replaced]
  · rw [gains.size]
    decide +kernel

end Document
end ParamStore

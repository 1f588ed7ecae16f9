import ParamStore.Proofs.CanonicalCells
import ParamStore.Proofs.MaterializeDocument

set_option autoImplicit false

namespace ParamStore
namespace Depot

def Canonical (depot : Depot) : Prop := ∀ number, (depot.store number).Canonical

theorem set_store_canonical (depot : Depot) (canonical : depot.Canonical) (number : Nat)
    (store : Store) (fresh : store.Canonical) : (depot.setStore number store).Canonical := by
  intro query
  by_cases inside : number < depot.stores.length
  · rw [store_set_store depot number query store inside]
    split
    · exact fresh
    · exact canonical query
  · have same : depot.setStore number store = depot := by
      rw [setStore, List.set_eq_of_length_le (Nat.le_of_not_lt inside)]
    rw [same]
    exact canonical query

theorem add_store_canonical (depot : Depot) (canonical : depot.Canonical) :
    depot.addStore.2.Canonical := by
  intro number id entries read
  have stores : depot.addStore.2.store number = depot.store number ∨
      depot.addStore.2.store number = .empty := by
    simp only [addStore, store, List.getD_eq_getElem?_getD]
    by_cases inside : number < depot.stores.length
    · exact .inl (by rw [List.getElem?_append_left inside])
    · refine .inr ?_
      rw [List.getElem?_append_right (Nat.le_of_not_lt inside)]
      cases number - depot.stores.length <;> rfl
  rcases stores with same | same
  · exact canonical number id entries (same ▸ read)
  · rw [same] at read
    cases read

theorem put_canonical (depot after : Depot) (sound : depot.Sound) (canonical : depot.Canonical)
    (target : Nat) (set : ParameterSet) (inside : target < depot.stores.length)
    (fresh : set.entries.Canonical) (known : Identifier)
    (done : depot.put target set = .ok (known, after)) : after.Canonical := by
  intro number id entries read
  by_cases here : number = target
  · subst here
    rcases put_adds depot after sound number set inside known done id entries read with
      old | ⟨_, rfl⟩ | ⟨_, copied⟩
    · exact canonical number id entries old
    · exact fresh
    · exact canonical set.home id entries copied
  · rw [put_elsewhere depot after target set inside known done number here] at read
    exact canonical number id entries read

theorem fetch_canonical (depot : Depot) (canonical : depot.Canonical) (source : Nat)
    (id : Identifier) (set : ParameterSet) (done : depot.fetch source id = .ok set) :
    set.entries.Canonical := by
  obtain ⟨entries, read, made⟩ := (Outcome.bind_ok _ _ _).mp done
  cases made
  exact canonical source id entries ((Store.entries_ok _ id entries).mp read)

structure MadeCanonical (made : Depot × Except Error ParameterSet) : Prop where
  depot : made.1.Canonical
  set : ∀ set, made.2 = .ok set → set.entries.Canonical

theorem materialize_table_canonical (depot : Depot) (canonical : depot.Canonical) (home : Nat)
    (table : Table) (fresh : ∀ entry ∈ table.entries, entry.2.value.Canonical) :
    MadeCanonical (table.materialize depot home) := by
  have refined := Value.encode_entries_refined .empty Entries.empty_canonical table.entries fresh
    (.start (depot.store home)) (canonical home)
  refine ⟨set_store_canonical depot canonical home _ refined.store, fun set made => ?_⟩
  obtain ⟨entries, found, rfl⟩ := (Outcome.map_ok _ _ _).mp made
  exact refined.result entries found

theorem materialize_canonical (depot : Depot) (canonical : depot.Canonical) (home : Nat)
    (document : Document) (fresh : document.Canonical) :
    MadeCanonical ((document.materialize depot home).1,
      (document.materialize depot home).2.map Prod.fst) := by
  obtain ⟨stores, sets⟩ := document.materialize_kept depot home
  rw [stores, sets]
  refine materialize_table_canonical depot canonical home ⟨document.kept⟩ ?_
  rintro ⟨name, item⟩ member
  obtain ⟨binding, bound, made⟩ := List.mem_filterMap.mp member
  obtain ⟨_, rfl, _⟩ := (Binding.kept_iff binding name item).mp made
  exact fresh binding bound

theorem materialize_source_canonical (depot : Depot) (canonical : depot.Canonical) (home : Nat)
    (options : ParseOptions) (source : Text) :
    MadeCanonical (materializeSource options source depot home) := by
  rw [materializeSource]
  split
  · exact ⟨canonical, by rintro _ ⟨⟩⟩
  · rename_i document read
    exact materialize_canonical depot canonical home document
      (Document.sound_canonical document (Document.read_sound options source document read))

end Depot

namespace ParameterSet

theorem place_canonical (store : Store) (canonical : store.Canonical) (set : ParameterSet)
    (old : set.entries.Canonical) (path : Text) (overwrite : Bool) (cell : Cell)
    (fresh : cell.Canonical) (changed : ParameterSet) (filled : Store)
    (done : set.place store path overwrite cell = .ok (changed, filled)) :
    changed.entries.Canonical ∧ filled.Canonical := by
  obtain ⟨parsed, placed, _, below, rfl⟩ := set.place_ok store path overwrite cell changed filled done
  obtain ⟨placedCanonical, filledCanonical⟩ := Store.place_canonical path overwrite cell fresh
    parsed.rest (set.entries.lookup parsed.root)
    (fun found present => set.entries.lookup_canonical old parsed.root found present) store canonical
    placed filled below
  exact ⟨set.entries.put_canonical old parsed.root placed placedCanonical, filledCanonical⟩

theorem erase_canonical (set : ParameterSet) (canonical : set.entries.Canonical) (key : Text) :
    (set.erase key).1.entries.Canonical := by
  rw [erase]
  split
  · exact set.entries.remove_canonical canonical key
  · exact canonical

end ParameterSet

namespace Ty

def cellsIn : (ty : Ty) → ty.Value → List Cell
  | cell, value => [value]
  | option _, none => []
  | option inner, some value => cellsIn inner value
  | list inner, values => List.flatMap (cellsIn inner) values
  | _, _ => []

structure Supplied (depot : Depot) (sets : List ParameterSet) (cells : List Cell) : Prop where
  backed : ∀ set ∈ sets, depot.Backs set
  sets : ∀ set ∈ sets, set.entries.Canonical
  cells : ∀ cell ∈ cells, cell.Canonical

theorem writes_canonical (ty : Ty) (value : ty.Value) (atom : Atom) (writes : ty.Writes value atom) :
    atom.Canonical := by
  cases writes with
  | nil => exact .nil
  | bool flag => exact .bool flag
  | int _ number => exact .integer number.1
  | single _ text written => exact .float _ text written
  | double _ text written => exact .float _ text written
  | complex _ re im first second => exact .complex _ _ re im first second
  | string _ text written =>
    obtain ⟨content, _, rfl⟩ := (Outcome.map_ok _ _ _).mp written
    exact .string content

theorem encode_items_canonical (home : Nat) (inner : Ty)
    (each : ∀ value before cell after, before.Sound → home < before.stores.length →
      before.Canonical → Supplied before (inner.setsIn value) (inner.cellsIn value) →
      inner.encode home value before = .ok (cell, after) → cell.Canonical ∧ after.Canonical)
    (values : List inner.Value) (before : Depot) (cells : List Cell) (after : Depot)
    (sound : before.Sound) (inside : home < before.stores.length) (canonical : before.Canonical)
    (supplied : ∀ value ∈ values, Supplied before (inner.setsIn value) (inner.cellsIn value))
    (done : encodeItems (inner.encode home) values before = .ok (cells, after)) :
    (∀ cell ∈ cells, cell.Canonical) ∧ after.Canonical := by
  induction values generalizing before cells after with
  | nil =>
    cases done
    exact ⟨by rintro _ ⟨⟩, canonical⟩
  | cons value tail ih =>
    simp only [encodeItems, Outcome.bind_ok] at done
    obtain ⟨⟨first, next⟩, one, ⟨rest, last⟩, others, result⟩ := done
    cases result
    have here := supplied value (List.mem_cons_self ..)
    obtain ⟨grows, _⟩ := encode_grows home inner value before first next sound inside here.backed one
    obtain ⟨firstCanonical, nextCanonical⟩ := each value before first next sound inside canonical here
      one
    obtain ⟨restCanonical, lastCanonical⟩ := ih next rest last (Depot.grows_sound before next grows)
      (Nat.lt_of_lt_of_le inside grows.count) nextCanonical
      (fun other member =>
        have known := supplied other (List.mem_cons_of_mem _ member)
        ⟨fun set used => Depot.grows_backs before next grows set (known.backed set used), known.sets,
          known.cells⟩)
      others
    exact ⟨List.forall_mem_cons.mpr ⟨firstCanonical, restCanonical⟩, lastCanonical⟩

theorem encode_canonical (home : Nat) (ty : Ty) (value : ty.Value) (before : Depot) (cell : Cell)
    (after : Depot) (sound : before.Sound) (inside : home < before.stores.length)
    (canonical : before.Canonical) (supplied : Supplied before (ty.setsIn value) (ty.cellsIn value))
    (done : ty.encode home value before = .ok (cell, after)) :
    cell.Canonical ∧ after.Canonical := by
  induction ty generalizing before cell after with
  | nil | bool | int _ | single | double | complex | string =>
    obtain ⟨rfl, atom, rfl, writes⟩ := encode_atom home _ rfl value before cell after done
    exact ⟨Cell.of_canonical _ _ (writes_canonical _ value atom writes), canonical⟩
  | set =>
    obtain ⟨⟨id, filled⟩, stored, same⟩ := (Outcome.map_ok _ _ _).mp done
    cases same
    have content := supplied.sets value (List.mem_singleton_self value)
    exact ⟨Cell.table_canonical id,
      Depot.put_canonical before filled sound canonical home value inside content id stored⟩
  | cell =>
    obtain ⟨_, _, same⟩ := (Outcome.map_ok _ _ _).mp done
    cases same
    exact ⟨supplied.cells _ (List.mem_singleton_self _), canonical⟩
  | option inner ih =>
    cases value with
    | none =>
      cases done
      exact ⟨Cell.nil_canonical, canonical⟩
    | some value => exact ih value before cell after sound inside canonical supplied done
  | list inner ih =>
    obtain ⟨⟨cells, filled⟩, made, same⟩ := (Outcome.map_ok _ _ _).mp done
    cases same
    obtain ⟨cellsCanonical, filledCanonical⟩ := encode_items_canonical home inner ih value before cells
      filled sound inside canonical (fun item member =>
        ⟨fun set used => supplied.backed set (List.mem_flatMap.mpr ⟨item, member, used⟩),
          fun set used => supplied.sets set (List.mem_flatMap.mpr ⟨item, member, used⟩),
          fun cell used => supplied.cells cell (List.mem_flatMap.mpr ⟨item, member, used⟩)⟩) made
    exact ⟨(Cell.sequence_canonical cells).mpr cellsCanonical, filledCanonical⟩

end Ty

-- Nothing is handed over by hand but what is in canonical text: sources and values of all types that
-- hold no cells are free.
def Operation.Clean : Operation → Prop
  | .put _ _ ty value => ∀ cell ∈ ty.cellsIn value, cell.Canonical
  | .putNew _ _ ty value => ∀ cell ∈ ty.cellsIn value, cell.Canonical
  | .insert _ _ cell => cell.Canonical
  | .materialize _ _ document => document.Canonical
  | .materializeTable _ _ table => ∀ entry ∈ table.entries, entry.2.value.Canonical
  | _ => True

namespace Session

inductive Composed : Session → Prop where
  | empty : Composed .empty
  | step (session : Session) (operation : Operation) (earlier : Composed session)
      (allowed : session.Allows operation) (clean : operation.Clean) :
      Composed (session.step operation).1

theorem composed_reachable (session : Session) (composed : session.Composed) : session.Reachable := by
  induction composed with
  | empty => exact .refl
  | step session operation _ allowed _ ih => exact .step session operation ih allowed

theorem composed_run (session : Session) (composed : session.Composed) (operations : List Operation)
    (permitted : session.Permits operations) (clean : ∀ operation ∈ operations, operation.Clean) :
    (session.run operations).Composed := by
  induction operations generalizing session with
  | nil => exact composed
  | cons operation rest ih =>
    exact ih _ (.step session operation composed permitted.1 (clean _ (List.mem_cons_self ..)))
      permitted.2 fun other member => clean other (List.mem_cons_of_mem _ member)

structure Canonical (session : Session) : Prop where
  depot : session.depot.Canonical
  sets : ∀ name set, session.sets.lookup name = some set → set.entries.Canonical

theorem with_set_canonical (session : Session) (canonical : session.Canonical) (depot : Depot)
    (filled : depot.Canonical) (name : Text) (set : ParameterSet) (fresh : set.entries.Canonical) :
    Canonical { session.withSet name set with depot := depot } := by
  refine ⟨filled, fun other found present => ?_⟩
  rw [withSet, Keyed.lookup_put] at present
  split at present
  · cases present
    exact fresh
  · exact canonical.sets other found present

theorem make_canonical (session : Session) (canonical : session.Canonical) (name store : Text)
    (maker : Depot → Nat → Depot × Except Error ParameterSet)
    (makes : ∀ home, Depot.MadeCanonical (maker session.depot home)) :
    (session.make name store maker).1.Canonical := by
  rw [make]
  split
  · exact canonical
  · rename_i home named
    have made := makes home
    unfold settleSet
    split
    · rename_i depot error found
      rw [found] at made
      exact ⟨made.depot, canonical.sets⟩
    · rename_i depot set found
      rw [found] at made
      exact with_set_canonical session canonical depot made.depot name set (made.set set rfl)

theorem put_canonical (session : Session) (sound : session.Sound) (canonical : session.Canonical)
    (name path : Text) (overwrite : Bool) (ty : Ty) (value : ty.Value)
    (live : ∀ set ∈ ty.setsIn value, ∃ known, session.sets.lookup known = some set)
    (clean : ∀ cell ∈ ty.cellsIn value, cell.Canonical) :
    (session.put name path overwrite ty value).1.Canonical := by
  rw [put]
  split
  · exact canonical
  · rename_i set named
    have held := (set_ok session name set).mp named
    have backs := sound.sets name set held
    have old := canonical.sets name set held
    have supplied : Ty.Supplied session.depot (ty.setsIn value) (ty.cellsIn value) := by
      refine ⟨fun used member => ?_, fun used member => ?_, clean⟩
      · obtain ⟨known, found⟩ := live used member
        exact sound.sets known used found
      · obtain ⟨known, found⟩ := live used member
        exact canonical.sets known used found
    rw [ParameterSet.put]
    cases encoded : ty.encode set.home value session.depot with
    | error error => exact with_set_canonical session canonical _ canonical.depot name set old
    | ok made =>
      obtain ⟨cell, filled⟩ := made
      obtain ⟨fresh, filledCanonical⟩ := Ty.encode_canonical set.home ty value session.depot cell filled
        sound.depot backs.home canonical.depot supplied encoded
      cases placed : set.place (filled.store set.home) path overwrite cell with
      | error error =>
        simp only [placed]
        exact with_set_canonical session canonical filled filledCanonical name set old
      | ok result =>
        obtain ⟨changed, store⟩ := result
        obtain ⟨changedCanonical, storeCanonical⟩ := ParameterSet.place_canonical _
          (filledCanonical set.home) set old path overwrite cell fresh changed store placed
        simp only [placed]
        exact with_set_canonical session canonical _
          (Depot.set_store_canonical filled filledCanonical set.home store storeCanonical) name changed
          changedCanonical

theorem names_canonical (session : Session) (canonical : session.Canonical) (operation : Operation)
    (clean : operation.Clean) (name : Text) (set : ParameterSet)
    (names : session.Names operation name set) : set.entries.Canonical := by
  cases names with
  | create => exact Entries.empty_canonical
  | copy _ source _ held => exact canonical.sets source set held
  | fetch _ id _ source _ _ read =>
    exact Depot.fetch_canonical session.depot canonical.depot source id set read
  | insert _ key cell old _ held inserted =>
    obtain ⟨entries, placed, rfl⟩ := (Outcome.map_ok _ _ _).mp inserted
    obtain ⟨_, _, rfl⟩ := (Entries.insert_ok _ _ _ _ _).mp placed
    exact old.entries.put_canonical (canonical.sets name old held) key cell clean
  | erase _ key old held => exact old.erase_canonical (canonical.sets name old held) key
  | identify _ old held => exact canonical.sets name old held

theorem does_canonical (session after : Session) (sound : session.Sound)
    (canonical : session.Canonical) (operation : Operation) (allowed : session.Allows operation)
    (clean : operation.Clean) (does : session.Does operation after) : after.Canonical := by
  have keep := canonical.depot
  cases does with
  | fail => exact canonical
  | openStore => exact ⟨Depot.add_store_canonical session.depot keep, canonical.sets⟩
  | shareStore => exact ⟨keep, canonical.sets⟩
  | name _ name set names =>
    exact with_set_canonical session canonical session.depot keep name set
      (names_canonical session canonical operation clean name set names)
  | keep store name target set id depot opened held stored =>
    have old := canonical.sets name set held
    exact with_set_canonical session canonical depot
      (Depot.put_canonical session.depot depot sound.depot keep target set
        (sound.handles store target opened) old id stored) name set.identified old
  | load name store options source =>
    exact make_canonical session canonical name store _ fun home =>
      Depot.materialize_source_canonical session.depot keep home options source
  | materialize name store document =>
    exact make_canonical session canonical name store _ fun home =>
      Depot.materialize_canonical session.depot keep home document clean
  | materializeTable name store table =>
    exact make_canonical session canonical name store _ fun home =>
      Depot.materialize_table_canonical session.depot keep home table clean
  | put name path ty value =>
    exact put_canonical session sound canonical name path true ty value allowed clean
  | putNew name path ty value =>
    exact put_canonical session sound canonical name path false ty value allowed clean

theorem step_canonical (session : Session) (sound : session.Sound) (canonical : session.Canonical)
    (operation : Operation) (allowed : session.Allows operation) (clean : operation.Clean) :
    (session.step operation).1.Canonical :=
  does_canonical session _ sound canonical operation allowed clean (session.step_does operation)

theorem composed_canonical (session : Session) (composed : session.Composed) : session.Canonical := by
  induction composed with
  | empty => exact ⟨by rintro _ _ _ ⟨⟩, by rintro _ _ ⟨⟩⟩
  | step session operation earlier allowed clean ih =>
    have sound := reachable_sound session (composed_reachable session earlier)
    exact step_canonical session sound ih operation allowed clean

end Session
end ParamStore

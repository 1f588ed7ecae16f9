import ParamStore.Proofs.DepotGrowth
import ParamStore.Proofs.SessionSteps
import ParamStore.Proofs.TypedAtoms

set_option autoImplicit false

namespace ParamStore
namespace Ty

def setsIn : (ty : Ty) → ty.Value → List ParameterSet
  | set, value => [value]
  | option _, none => []
  | option inner, some value => setsIn inner value
  | list inner, values => List.flatMap (setsIn inner) values
  | _, _ => []

-- Encoding turns a value into a cell of the store `home`: the depot grows, and the tables that the
-- cell names are stored there.
def Encodes {α : Type} (home : Nat) (sets : α → List ParameterSet)
    (encode : α → Depot → Except Error (Cell × Depot)) : Prop :=
  ∀ value before cell after, before.Sound → home < before.stores.length →
    (∀ set ∈ sets value, before.Backs set) → encode value before = .ok (cell, after) →
    Depot.Grows before after ∧ (after.store home).Holds cell.tables

theorem encode_items_grows {α : Type} (home : Nat) (sets : α → List ParameterSet)
    (encode : α → Depot → Except Error (Cell × Depot)) (each : Encodes home sets encode)
    (items : List α) (before : Depot) (sound : before.Sound) (inside : home < before.stores.length)
    (backed : ∀ item ∈ items, ∀ set ∈ sets item, before.Backs set) (cells : List Cell)
    (after : Depot) (done : encodeItems encode items before = .ok (cells, after)) :
    Depot.Grows before after ∧ (after.store home).Holds (Cell.itemTables cells) := by
  induction items generalizing before cells after with
  | nil =>
    cases done
    exact ⟨Depot.grows_refl before sound, by rintro _ ⟨⟩⟩
  | cons item tail ih =>
    simp only [encodeItems, Outcome.bind_ok] at done
    obtain ⟨⟨first, next⟩, one, ⟨rest, last⟩, others, result⟩ := done
    cases result
    obtain ⟨grows, firstHeld⟩ := each item before first next sound inside
      (backed item (List.mem_cons_self ..)) one
    obtain ⟨later, restHeld⟩ := ih next (Depot.grows_sound before next grows)
      (Nat.lt_of_lt_of_le inside grows.count)
      (fun other member set used => Depot.grows_backs before next grows set
        (backed other (List.mem_cons_of_mem _ member) set used))
      rest last others
    exact ⟨Depot.grows_trans before next last grows later,
      (Store.holds_append _ _ _).mpr
        ⟨Store.keeps_holds _ _ (later.stores home).keeps _ firstHeld, restHeld⟩⟩

theorem encode_grows (home : Nat) (ty : Ty) : Encodes home ty.setsIn (ty.encode home) := by
  induction ty with
  | nil | bool | int _ | single | double | complex | string =>
    intro value before cell after sound _ _ done
    obtain ⟨rfl, atom, rfl, _⟩ := encode_atom home _ rfl value before cell after done
    exact ⟨Depot.grows_refl after sound, by rintro _ ⟨⟩⟩
  | set =>
    intro value before cell after sound inside backed done
    obtain ⟨filled, stored, grows, present⟩ := Depot.put_grows before sound home value inside
      (backed value (List.mem_singleton_self value))
    simp only [encode, stored, Except.map, Except.ok.injEq, Prod.mk.injEq] at done
    rw [← done.1, ← done.2]
    exact ⟨grows, fun id named => List.mem_singleton.mp named ▸ present⟩
  | cell =>
    intro value before cell after sound _ _ done
    obtain ⟨_, checked, same⟩ := (Outcome.map_ok _ _ _).mp done
    cases same
    exact ⟨Depot.grows_refl before sound, (Store.check_tables_iff _ _).mp checked⟩
  | option inner ih =>
    intro value before cell after sound inside backed done
    cases value with
    | none =>
      cases done
      exact ⟨Depot.grows_refl before sound, by rintro _ ⟨⟩⟩
    | some value => exact ih value before cell after sound inside backed done
  | list inner ih =>
    intro values before cell after sound inside backed done
    obtain ⟨⟨cells, filled⟩, made, same⟩ := (Outcome.map_ok _ _ _).mp done
    cases same
    exact encode_items_grows home inner.setsIn (inner.encode home) ih values before sound inside
      (fun item member set used => backed set (List.mem_flatMap.mpr ⟨item, member, used⟩))
      cells filled made

end Ty

def Operation.sets : Operation → List ParameterSet
  | .put _ _ ty value => ty.setsIn value
  | .putNew _ _ ty value => ty.setsIn value
  | _ => []

namespace Session

-- A set can only be handed over where it lives.
def Allows (session : Session) (operation : Operation) : Prop :=
  ∀ set ∈ operation.sets, ∃ name, session.sets.lookup name = some set

-- Some operations, failing ones among them, lead from one session to another.
inductive Leads (first : Session) : Session → Prop where
  | refl : Leads first first
  | step (last : Session) (operation : Operation) (earlier : Leads first last)
      (allowed : last.Allows operation) : Leads first (last.step operation).1

def Reachable (session : Session) : Prop := Leads .empty session

def Permits (session : Session) : List Operation → Prop
  | [] => True
  | operation :: rest => session.Allows operation ∧ Permits (session.step operation).1 rest

theorem leads_run (first session : Session) (earlier : Leads first session)
    (operations : List Operation) (permitted : session.Permits operations) :
    Leads first (session.run operations) := by
  induction operations generalizing session with
  | nil => exact earlier
  | cons operation rest ih =>
    exact ih _ (.step session operation earlier permitted.1) permitted.2

theorem permits_plain (session : Session) (operations : List Operation)
    (plain : ∀ operation ∈ operations, operation.sets = []) : session.Permits operations := by
  induction operations generalizing session with
  | nil => trivial
  | cons operation rest ih =>
    refine ⟨?_, ih _ fun other member => plain other (List.mem_cons_of_mem _ member)⟩
    rw [Allows, plain operation (List.mem_cons_self ..)]
    rintro _ ⟨⟩

structure Sound (session : Session) : Prop where
  depot : session.depot.Sound
  handles : ∀ name number, session.handles.lookup name = some number →
    number < session.depot.stores.length
  sets : ∀ name set, session.sets.lookup name = some set → session.depot.Backs set

structure Grows (before after : Session) : Prop where
  sound : after.Sound
  depot : Depot.Grows before.depot after.depot

theorem grows_refl (session : Session) (sound : session.Sound) : Grows session session :=
  ⟨sound, Depot.grows_refl session.depot sound.depot⟩

theorem grows_trans (first second third : Session) (early : Grows first second)
    (late : Grows second third) : Grows first third :=
  ⟨late.sound, Depot.grows_trans _ _ _ early.depot late.depot⟩

theorem empty_sound : Sound .empty :=
  ⟨fun _ => .nil, by rintro _ _ ⟨⟩, by rintro _ _ ⟨⟩⟩

theorem with_set_grows (session : Session) (sound : session.Sound) (depot : Depot)
    (grows : Depot.Grows session.depot depot) (name : Text) (set : ParameterSet)
    (backs : depot.Backs set) :
    Grows session { session.withSet name set with depot := depot } := by
  refine ⟨⟨Depot.grows_sound _ _ grows, ?_, ?_⟩, grows⟩
  · intro other number found
    exact Nat.lt_of_lt_of_le (sound.handles other number found) grows.count
  · intro other found present
    rw [withSet, Keyed.lookup_put] at present
    split at present
    · cases present
      exact backs
    · exact Depot.grows_backs _ _ grows found (sound.sets other found present)

theorem with_depot_grows (session : Session) (sound : session.Sound) (depot : Depot)
    (grows : Depot.Grows session.depot depot) : Grows session { session with depot := depot } :=
  ⟨⟨Depot.grows_sound _ _ grows,
      fun name number found => Nat.lt_of_lt_of_le (sound.handles name number found) grows.count,
      fun name set found => Depot.grows_backs _ _ grows set (sound.sets name set found)⟩, grows⟩

theorem with_handle_sound (session : Session) (sound : session.Sound) (name : Text) (number : Nat)
    (inside : number < session.depot.stores.length) :
    Sound { session with handles := session.handles.put name number } := by
  refine ⟨sound.depot, ?_, sound.sets⟩
  intro other found present
  rw [Keyed.lookup_put] at present
  split at present
  · cases present
    exact inside
  · exact sound.handles other found present

theorem open_store_grows (session : Session) (sound : session.Sound) (name : Text) :
    Grows session (session.openStore name) := by
  have grows := Depot.add_store_grows session.depot sound.depot
  have wider := with_depot_grows session sound session.depot.addStore.2 grows
  refine ⟨with_handle_sound _ wider.sound name session.depot.addStore.1 ?_, grows⟩
  simp [Depot.addStore]

theorem make_grows (session : Session) (sound : session.Sound) (name store : Text)
    (maker : Depot → Nat → Depot × Except Error ParameterSet)
    (makes : ∀ home, home < session.depot.stores.length →
      Depot.Made session.depot (maker session.depot home)) :
    Grows session (session.make name store maker).1 := by
  rw [make]
  split
  · exact grows_refl session sound
  · rename_i home named
    have made := makes home (sound.handles store home ((handle_ok session store home).mp named))
    unfold settleSet
    split
    · rename_i depot error found
      rw [found] at made
      exact with_depot_grows session sound depot made.grows
    · rename_i depot set found
      rw [found] at made
      exact with_set_grows session sound depot made.grows name set (made.backs set rfl)

theorem put_grows (session : Session) (sound : session.Sound) (name path : Text) (overwrite : Bool)
    (ty : Ty) (value : ty.Value)
    (live : ∀ set ∈ ty.setsIn value, ∃ known, session.sets.lookup known = some set) :
    Grows session (session.put name path overwrite ty value).1 := by
  rw [put]
  split
  · exact grows_refl session sound
  · rename_i set named
    have backs := sound.sets name set ((set_ok session name set).mp named)
    have backed : ∀ used ∈ ty.setsIn value, session.depot.Backs used := by
      intro used member
      obtain ⟨known, found⟩ := live used member
      exact sound.sets known used found
    rw [ParameterSet.put]
    cases encoded : ty.encode set.home value session.depot with
    | error error =>
      exact with_set_grows session sound _ (Depot.grows_refl _ sound.depot) name set backs
    | ok made =>
      obtain ⟨cell, filled⟩ := made
      obtain ⟨grows, held⟩ := Ty.encode_grows set.home ty value session.depot cell filled
        sound.depot backs.home backed encoded
      have backsNow := Depot.grows_backs _ _ grows set backs
      cases placed : set.place (filled.store set.home) path overwrite cell with
      | error error =>
        simp only [placed]
        exact with_set_grows session sound filled grows name set backsNow
      | ok result =>
        obtain ⟨changed, store⟩ := result
        obtain ⟨later, after⟩ := Depot.place_backs filled (Depot.grows_sound _ _ grows) set changed
          backsNow path overwrite cell store held placed
        simp only [placed]
        exact with_set_grows session sound _ (Depot.grows_trans _ _ _ grows later) name changed after

theorem names_backed (session : Session) (sound : session.Sound) (operation : Operation)
    (name : Text) (set : ParameterSet) (names : session.Names operation name set) :
    session.depot.Backs set := by
  cases names with
  | create _ store home opened =>
    exact ⟨sound.handles store home opened, Entries.empty_tables _, by rintro _ ⟨⟩⟩
  | copy _ source _ held => exact sound.sets source set held
  | fetch store id _ source _ opened read =>
    exact Depot.fetch_backs session.depot sound.depot source id set
      (sound.handles store source opened) read
  | insert _ key cell old _ held inserted =>
    exact Depot.insert_backs session.depot old set (sound.sets name old held) key cell inserted
  | erase _ key old held => exact Depot.erase_backs session.depot old (sound.sets name old held) key
  | identify _ old held => exact Depot.identified_backs session.depot old (sound.sets name old held)

theorem does_grows (session after : Session) (sound : session.Sound) (operation : Operation)
    (allowed : session.Allows operation) (does : session.Does operation after) :
    Grows session after := by
  have refl := Depot.grows_refl session.depot sound.depot
  cases does with
  | fail => exact grows_refl session sound
  | openStore name => exact open_store_grows session sound name
  | shareStore name source number opened =>
    exact ⟨with_handle_sound session sound name number (sound.handles source number opened), refl⟩
  | name _ name set names =>
    exact with_set_grows session sound session.depot refl name set
      (names_backed session sound operation name set names)
  | keep store name target set id depot opened held stored =>
    have backs := sound.sets name set held
    obtain ⟨filled, put, grows, _⟩ := Depot.put_grows session.depot sound.depot target set
      (sound.handles store target opened) backs
    cases stored.symm.trans put
    exact with_set_grows session sound depot grows name set.identified
      (Depot.identified_backs depot set (Depot.grows_backs _ _ grows set backs))
  | load name store options source =>
    exact make_grows session sound name store _ fun home inside =>
      Depot.materialize_source_made session.depot sound.depot home inside options source
  | materialize name store document =>
    exact make_grows session sound name store _ fun home inside =>
      Depot.materialize_made session.depot sound.depot home inside document
  | materializeTable name store table =>
    exact make_grows session sound name store _ fun home inside =>
      Depot.materialize_table_made session.depot sound.depot home inside table
  | put name path ty value => exact put_grows session sound name path true ty value allowed
  | putNew name path ty value => exact put_grows session sound name path false ty value allowed

theorem step_grows (session : Session) (sound : session.Sound) (operation : Operation)
    (allowed : session.Allows operation) : Grows session (session.step operation).1 :=
  does_grows session _ sound operation allowed (session.step_does operation)

theorem leads_grows (first last : Session) (sound : first.Sound) (run : Leads first last) :
    Grows first last := by
  induction run with
  | refl => exact grows_refl first sound
  | step before operation _ allowed ih =>
    exact grows_trans first before _ ih (step_grows before ih.sound operation allowed)

theorem reachable_sound (session : Session) (reachable : session.Reachable) : session.Sound :=
  (leads_grows .empty session empty_sound reachable).sound

end Session
end ParamStore

import ParamStore.Session
import ParamStore.Proofs.Outcome

set_option autoImplicit false

namespace ParamStore
namespace Session

theorem set_ok (session : Session) (name : Text) (set : ParameterSet) :
    session.set? name = .ok set ↔ session.sets.lookup name = some set := by
  rw [set?]
  cases session.sets.lookup name <;> simp

theorem handle_ok (session : Session) (name : Text) (number : Nat) :
    session.handle? name = .ok number ↔ session.handles.lookup name = some number := by
  rw [handle?]
  cases session.handles.lookup name <;> simp

-- The sets that operations put under a name without storing anything.
inductive Names (session : Session) : Operation → Text → ParameterSet → Prop where
  | create (name store : Text) (home : Nat) (opened : session.handles.lookup store = some home) :
      Names session (.create name store) name (.empty home)
  | copy (name source : Text) (set : ParameterSet) (held : session.sets.lookup source = some set) :
      Names session (.copy name source) name set
  | fetch (store : Text) (id : Identifier) (name : Text) (source : Nat) (set : ParameterSet)
      (opened : session.handles.lookup store = some source)
      (read : session.depot.fetch source id = .ok set) :
      Names session (.fetch store id name) name set
  | insert (name key : Text) (cell : Cell) (set changed : ParameterSet)
      (held : session.sets.lookup name = some set)
      (inserted : set.insert (session.homeOf set) key cell = .ok changed) :
      Names session (.insert name key cell) name changed
  | erase (name key : Text) (set : ParameterSet) (held : session.sets.lookup name = some set) :
      Names session (.erase name key) name (set.erase key).1
  | identify (name : Text) (set : ParameterSet) (held : session.sets.lookup name = some set) :
      Names session (.identify name) name set.identified

inductive Does (session : Session) : Operation → Session → Prop where
  | fail (operation : Operation) : Does session operation session
  | openStore (name : Text) : Does session (.openStore name) (session.openStore name)
  | shareStore (name source : Text) (number : Nat)
      (opened : session.handles.lookup source = some number) :
      Does session (.shareStore name source)
        { session with handles := session.handles.put name number }
  | name (operation : Operation) (name : Text) (set : ParameterSet)
      (names : session.Names operation name set) : Does session operation (session.withSet name set)
  | keep (store name : Text) (target : Nat) (set : ParameterSet) (id : Identifier) (depot : Depot)
      (opened : session.handles.lookup store = some target)
      (held : session.sets.lookup name = some set)
      (stored : session.depot.put target set = .ok (id, depot)) :
      Does session (.keep store name) { session.withSet name set.identified with depot := depot }
  | load (name store : Text) (options : ParseOptions) (source : Text) :
      Does session (.load name store options source)
        (session.make name store (materializeSource options source)).1
  | materialize (name store : Text) (document : Document) :
      Does session (.materialize name store document)
        (session.make name store fun depot home =>
          ((document.materialize depot home).1, (document.materialize depot home).2.map Prod.fst)).1
  | materializeTable (name store : Text) (table : Table) :
      Does session (.materializeTable name store table)
        (session.make name store table.materialize).1
  | put (name path : Text) (ty : Ty) (value : ty.Value) :
      Does session (.put name path ty value) (session.put name path true ty value).1
  | putNew (name path : Text) (ty : Ty) (value : ty.Value) :
      Does session (.putNew name path ty value) (session.put name path false ty value).1

theorem settle_does {α : Type} (session : Session) (operation : Operation)
    (reply : α → Session × Reply) (outcome : Except Error α)
    (done : ∀ result, outcome = .ok result → session.Does operation (reply result).1) :
    session.Does operation (session.settle reply outcome).1 := by
  cases outcome with
  | error => exact .fail operation
  | ok result => exact done result rfl

section Settled

variable (session : Session)

theorem share_store_does (name source : Text) (after : Session)
    (done : session.shareStore name source = .ok after) :
    session.Does (.shareStore name source) after := by
  obtain ⟨number, opened, made⟩ := (Outcome.bind_ok _ _ _).mp done
  cases made
  exact .shareStore name source number ((handle_ok session source number).mp opened)

theorem create_does (name store : Text) (after : Session)
    (done : session.create name store = .ok after) : session.Does (.create name store) after := by
  obtain ⟨home, opened, made⟩ := (Outcome.bind_ok _ _ _).mp done
  cases made
  exact .name _ name _ (.create name store home ((handle_ok session store home).mp opened))

theorem copy_does (name source : Text) (after : Session)
    (done : session.copy name source = .ok after) : session.Does (.copy name source) after := by
  obtain ⟨set, held, made⟩ := (Outcome.bind_ok _ _ _).mp done
  cases made
  exact .name _ name _ (.copy name source set ((set_ok session source set).mp held))

theorem keep_does (store name : Text) (result : Session × Identifier)
    (done : session.keep store name = .ok result) : session.Does (.keep store name) result.1 := by
  obtain ⟨target, opened, rest⟩ := (Outcome.bind_ok _ _ _).mp done
  obtain ⟨set, held, last⟩ := (Outcome.bind_ok _ _ _).mp rest
  obtain ⟨⟨id, depot⟩, stored, made⟩ := (Outcome.bind_ok _ _ _).mp last
  cases made
  exact .keep store name target set id depot ((handle_ok session store target).mp opened)
    ((set_ok session name set).mp held) stored

theorem fetch_does (store : Text) (id : Identifier) (name : Text) (after : Session)
    (done : session.fetch store id name = .ok after) :
    session.Does (.fetch store id name) after := by
  obtain ⟨source, opened, rest⟩ := (Outcome.bind_ok _ _ _).mp done
  obtain ⟨set, read, made⟩ := (Outcome.bind_ok _ _ _).mp rest
  cases made
  exact .name _ name _
    (.fetch store id name source set ((handle_ok session store source).mp opened) read)

theorem insert_does (name key : Text) (cell : Cell) (after : Session)
    (done : session.insert name key cell = .ok after) :
    session.Does (.insert name key cell) after := by
  obtain ⟨set, held, rest⟩ := (Outcome.bind_ok _ _ _).mp done
  obtain ⟨changed, inserted, made⟩ := (Outcome.bind_ok _ _ _).mp rest
  cases made
  exact .name _ name _
    (.insert name key cell set changed ((set_ok session name set).mp held) inserted)

theorem erase_does (name key : Text) (result : Session × Bool)
    (done : session.erase name key = .ok result) : session.Does (.erase name key) result.1 := by
  obtain ⟨set, held, made⟩ := (Outcome.bind_ok _ _ _).mp done
  cases made
  exact .name _ name _ (.erase name key set ((set_ok session name set).mp held))

theorem identify_does (name : Text) (result : Session × Identifier)
    (done : session.identify name = .ok result) : session.Does (.identify name) result.1 := by
  obtain ⟨set, held, made⟩ := (Outcome.bind_ok _ _ _).mp done
  cases made
  exact .name _ name _ (.identify name set ((set_ok session name set).mp held))

end Settled

theorem step_does (session : Session) (operation : Operation) :
    session.Does operation (session.step operation).1 := by
  cases operation with
  | openStore name => exact .openStore name
  | shareStore name source =>
    exact settle_does session _ _ _ (session.share_store_does name source)
  | create name store => exact settle_does session _ _ _ (session.create_does name store)
  | load name store options source => exact .load name store options source
  | materialize name store document => exact .materialize name store document
  | materializeTable name store table => exact .materializeTable name store table
  | copy name source => exact settle_does session _ _ _ (session.copy_does name source)
  | keep store name => exact settle_does session _ _ _ (session.keep_does store name)
  | fetch store id name => exact settle_does session _ _ _ (session.fetch_does store id name)
  | put name path ty value => exact .put name path ty value
  | putNew name path ty value => exact .putNew name path ty value
  | insert name key cell => exact settle_does session _ _ _ (session.insert_does name key cell)
  | erase name key => exact settle_does session _ _ _ (session.erase_does name key)
  | identify name => exact settle_does session _ _ _ (session.identify_does name)

end Session
end ParamStore

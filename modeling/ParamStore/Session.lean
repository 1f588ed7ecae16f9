import ParamStore.Materialize
import ParamStore.ParameterSet.Typed

set_option autoImplicit false

namespace ParamStore

structure Session where
  depot : Depot
  /-- Names of stores; two names may stand for one store. -/
  handles : Keyed Nat
  sets : Keyed ParameterSet

inductive Operation where
  | openStore (name : Text)
  | shareStore (name source : Text)
  | create (set store : Text)
  | load (set store : Text) (options : ParseOptions) (source : Text)
  | materialize (set store : Text) (document : Document)
  | materializeTable (set store : Text) (table : Table)
  | copy (set source : Text)
  | keep (store set : Text)
  | fetch (store : Text) (id : Identifier) (set : Text)
  | put (set path : Text) (ty : Ty) (value : ty.Value)
  | putNew (set path : Text) (ty : Ty) (value : ty.Value)
  | insert (set key : Text) (cell : Cell)
  | erase (set key : Text)
  /-- The identifier of a set stays known until the set changes. -/
  | identify (set : Text)

inductive Reply where
  | done
  | kept (id : Identifier)
  | erased (present : Bool)

namespace Session

def empty : Session := ⟨⟨[]⟩, [], []⟩

def set? (session : Session) (name : Text) : Except Error ParameterSet :=
  match session.sets.lookup name with
  | some set => .ok set
  | none => .error (.cantFind name)

def handle? (session : Session) (name : Text) : Except Error Nat :=
  match session.handles.lookup name with
  | some number => .ok number
  | none => .error (.cantFind name)

def homeOf (session : Session) (set : ParameterSet) : Store := session.depot.store set.home

def withSet (session : Session) (name : Text) (set : ParameterSet) : Session :=
  { session with sets := session.sets.put name set }

def openStore (session : Session) (name : Text) : Session :=
  let (number, depot) := session.depot.addStore
  { session with depot := depot, handles := session.handles.put name number }

def shareStore (session : Session) (name source : Text) : Except Error Session := do
  let number ← session.handle? source
  return { session with handles := session.handles.put name number }

def create (session : Session) (name store : Text) : Except Error Session := do
  let home ← session.handle? store
  return session.withSet name (.empty home)

def settleSet (session : Session) (name : Text) (made : Depot × Except Error ParameterSet) :
    Session × Except Error Reply :=
  match made with
  | (depot, .error error) => ({ session with depot := depot }, .error error)
  | (depot, .ok set) => ({ session.withSet name set with depot := depot }, .ok .done)

def make (session : Session) (name store : Text)
    (maker : Depot → Nat → Depot × Except Error ParameterSet) : Session × Except Error Reply :=
  match session.handle? store with
  | .error error => (session, .error error)
  | .ok home => session.settleSet name (maker session.depot home)

def copy (session : Session) (name source : Text) : Except Error Session := do
  let set ← session.set? source
  return session.withSet name set

def keep (session : Session) (store name : Text) : Except Error (Session × Identifier) := do
  let target ← session.handle? store
  let set ← session.set? name
  let (id, depot) ← session.depot.put target set
  return ({ session.withSet name set.identified with depot := depot }, id)

def identify (session : Session) (name : Text) : Except Error (Session × Identifier) := do
  let set ← session.set? name
  return (session.withSet name set.identified, set.id)

def fetch (session : Session) (store : Text) (id : Identifier) (name : Text) :
    Except Error Session := do
  let source ← session.handle? store
  let set ← session.depot.fetch source id
  return session.withSet name set

def insert (session : Session) (name key : Text) (cell : Cell) : Except Error Session := do
  let set ← session.set? name
  let changed ← set.insert (session.homeOf set) key cell
  return session.withSet name changed

def erase (session : Session) (name key : Text) : Except Error (Session × Bool) := do
  let set ← session.set? name
  let (changed, present) := set.erase key
  return (session.withSet name changed, present)

def put (session : Session) (name path : Text) (overwrite : Bool) (ty : Ty) (value : ty.Value) :
    Session × Except Error Reply :=
  match session.set? name with
  | .error error => (session, .error error)
  | .ok set =>
    let ((changed, depot), outcome) := set.put session.depot ty path overwrite value
    ({ session.withSet name changed with depot := depot }, outcome.map fun _ => .done)

def settle {α : Type} (session : Session) (reply : α → Session × Reply) (outcome : Except Error α) :
    Session × Except Error Reply :=
  match outcome with
  | .ok result => ((reply result).1, .ok (reply result).2)
  | .error error => (session, .error error)

-- An operation that fails changes nothing but what it had stored before it failed.
def step (session : Session) : Operation → Session × Except Error Reply
  | .openStore name => (session.openStore name, .ok .done)
  | .shareStore name source => session.settle (·, .done) (session.shareStore name source)
  | .create name store => session.settle (·, .done) (session.create name store)
  | .load name store options source => session.make name store (materializeSource options source)
  | .materialize name store document =>
    session.make name store fun depot home =>
      let (filled, outcome) := document.materialize depot home
      (filled, outcome.map Prod.fst)
  | .materializeTable name store table => session.make name store table.materialize
  | .copy name source => session.settle (·, .done) (session.copy name source)
  | .keep store name =>
    session.settle (fun kept => (kept.1, .kept kept.2)) (session.keep store name)
  | .fetch store id name => session.settle (·, .done) (session.fetch store id name)
  | .put name path ty value => session.put name path true ty value
  | .putNew name path ty value => session.put name path false ty value
  | .insert name key cell => session.settle (·, .done) (session.insert name key cell)
  | .erase name key =>
    session.settle (fun erased => (erased.1, .erased erased.2)) (session.erase name key)
  | .identify name => session.settle (fun known => (known.1, .kept known.2)) (session.identify name)

def run (session : Session) (operations : List Operation) : Session :=
  operations.foldl (fun before operation => (before.step operation).1) session

end Session
end ParamStore

import ParamStore.Cell.Json

set_option autoImplicit false

namespace ParamStore

structure ParameterSet where
  home : Nat
  entries : Entries
  /-- The identifier, where it is known without computing it. -/
  known : Option Identifier
deriving DecidableEq

def Entries.insert (entries : Entries) (store : Store) (key : Text) (cell : Cell) :
    Except Error Entries :=
  if key.isKey then do
    store.checkTables cell
    return entries.put key cell
  else .error (.typeMismatch (.invalidKey key))

/-- Handles with one number share one store. -/
structure Depot where
  stores : List Store
deriving DecidableEq

namespace Depot

def store (depot : Depot) (number : Nat) : Store := depot.stores.getD number .empty

def setStore (depot : Depot) (number : Nat) (store : Store) : Depot :=
  ⟨depot.stores.set number store⟩

def addStore (depot : Depot) : Nat × Depot := (depot.stores.length, ⟨depot.stores ++ [.empty]⟩)

end Depot

namespace ParameterSet

def empty (home : Nat) : ParameterSet := ⟨home, .empty, none⟩

def id (set : ParameterSet) : Identifier := set.known.getD set.entries.identifier

-- Storing a set works its identifier out, too.
def identified (set : ParameterSet) : ParameterSet := { set with known := some set.id }

-- Sets are the same when their contents are, wherever they live.
def sameContent (set other : ParameterSet) : Bool := set.entries == other.entries

def withEntries (set : ParameterSet) (entries : Entries) : ParameterSet := ⟨set.home, entries, none⟩

def keys (set : ParameterSet) : List Text := set.entries.keys

def isTable : Cell → Bool
  | .table _ => true
  | _ => false

def tableKeys (set : ParameterSet) : List Text :=
  (set.entries.cells.filter fun entry => isTable entry.2).map (·.1)

def text (store : Store) (set : ParameterSet) : Text := store.entriesText set.entries

def json (store : Store) (set : ParameterSet) : Except Error Json := store.entriesJson set.entries

def find (store : Store) (set : ParameterSet) (path : Text) : Except Error Cell := do
  let parsed ← Path.read path
  match set.entries.lookup parsed.root with
  | none => .error (.cantFind path)
  | some cell => store.follow path parsed.rest cell

def contains (store : Store) (set : ParameterSet) (path : Text) : Bool :=
  (set.find store path).isOk

def place (store : Store) (set : ParameterSet) (path : Text) (overwrite : Bool) (cell : Cell) :
    Except Error (ParameterSet × Store) := do
  let parsed ← Path.read path
  let (placed, filled) ←
    Store.place path overwrite cell parsed.rest (set.entries.lookup parsed.root) store
  return (set.withEntries (set.entries.put parsed.root placed), filled)

def insert (store : Store) (set : ParameterSet) (key : Text) (cell : Cell) :
    Except Error ParameterSet :=
  (set.entries.insert store key cell).map set.withEntries

def erase (set : ParameterSet) (key : Text) : ParameterSet × Bool :=
  if (set.entries.lookup key).isSome then (set.withEntries (set.entries.remove key), true)
  else (set, false)

end ParameterSet

namespace Depot

def put (depot : Depot) (target : Nat) (set : ParameterSet) : Except Error (Identifier × Depot) :=
  let store := depot.store target
  if store.contains set.id then .ok (set.id, depot)
  else if set.home = target then
    .ok (set.id, depot.setStore target (store.insert set.id set.entries))
  else do
    let filled ← Store.adoptBelow (depot.store set.home) store set.entries
    return (set.id, depot.setStore target (filled.insert set.id set.entries))

def fetch (depot : Depot) (source : Nat) (id : Identifier) : Except Error ParameterSet := do
  let entries ← (depot.store source).entries id
  return ⟨source, entries, some id⟩

def textOf (depot : Depot) (source : Nat) (id : Identifier) : Except Error Text := do
  let set ← depot.fetch source id
  return set.text (depot.store source)

end Depot
end ParamStore

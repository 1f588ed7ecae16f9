import ParamStore.Cell

set_option autoImplicit false

namespace ParamStore

-- A table is stored after the tables inside it, so walks go from newer to older contents and end.
structure Store where
  contents : List (Identifier × Entries)
deriving DecidableEq

namespace Store

def empty : Store := ⟨[]⟩

def size (store : Store) : Nat := store.contents.length

def lookupIn (id : Identifier) : List (Identifier × Entries) → Option Entries
  | [] => none
  | (stored, entries) :: older => if id = stored then some entries else lookupIn id older

def lookup (store : Store) (id : Identifier) : Option Entries := lookupIn id store.contents

def contains (store : Store) (id : Identifier) : Bool := (store.lookup id).isSome

def entries (store : Store) (id : Identifier) : Except Error Entries :=
  match store.lookup id with
  | some entries => .ok entries
  | none => .error (.cantFind id.hex)

def insert (store : Store) (id : Identifier) (entries : Entries) : Store :=
  if store.contains id then store else ⟨(id, entries) :: store.contents⟩

def intern (store : Store) (entries : Entries) : Identifier × Store :=
  (entries.identifier, store.insert entries.identifier entries)

def adopt : List (Identifier × Entries) → Store → Identifier → Except Error Store
  | [], target, id => if target.contains id then .ok target else .error (.cantFind id.hex)
  | (stored, entries) :: older, target, id =>
    if target.contains id then .ok target
    else if id = stored then do
      let filled ← entries.tables.foldlM (fun filled child => adopt older filled child) target
      return filled.insert id entries
    else adopt older target id

def adoptBelow (source target : Store) (entries : Entries) : Except Error Store :=
  entries.tables.foldlM (fun filled child => adopt source.contents filled child) target

def tableText : List (Identifier × Entries) → Identifier → Text
  | [], id => '{' :: '@' :: id.hex ++ ['}']
  | (stored, entries) :: older, id =>
    if id = stored then '{' :: entries.textWith (tableText older) ++ ['}']
    else tableText older id

def cellText (store : Store) (cell : Cell) : Text := cell.textWith (tableText store.contents)

def entriesText (store : Store) (entries : Entries) : Text :=
  entries.textWith (tableText store.contents)

-- Failures name the whole `path`, not the segment they come from.
def follow (store : Store) (path : Text) : List Segment → Cell → Except Error Cell
  | [], cell => .ok cell
  | .key name :: rest, .table id => do
    let entries ← store.entries id
    match entries.lookup name with
    | none => .error (.cantFind path)
    | some inner => follow store path rest inner
  | .index place :: rest, .sequence items =>
    match items[place]? with
    | none => .error (.cantFind path)
    | some inner => follow store path rest inner
  | step :: _, other => .error (.typeMismatch (.noStep step path other.shape))

def tableAt (store : Store) (path : Text) (step : Segment) : Option Cell → Except Error Entries
  | none => .ok .empty
  | some (.table id) => store.entries id
  | some other => .error (.typeMismatch (.blocked step path other.shape))

def sequenceAt (path : Text) (step : Segment) : Option Cell → Except Error (List Cell)
  | none => .ok []
  | some (.sequence items) => .ok items
  | some other => .error (.typeMismatch (.blocked step path other.shape))

-- Tables on the way are stored anew. An index one behind the last appends.
def place (path : Text) (overwrite : Bool) (cell : Cell) :
    List Segment → Option Cell → Store → Except Error (Cell × Store)
  | [], slot, store =>
    if slot.isSome ∧ overwrite = false then .error (.cantInsert path) else .ok (cell, store)
  | .key name :: rest, slot, store => do
    let entries ← store.tableAt path (.key name) slot
    let (inner, filled) ← place path overwrite cell rest (entries.lookup name) store
    let (id, stored) := filled.intern (entries.put name inner)
    return (.table id, stored)
  | .index index :: rest, slot, store => do
    let items ← sequenceAt path (.index index) slot
    if items.length < index then .error (.cantFind path)
    else
      let (inner, filled) ← place path overwrite cell rest items[index]? store
      if index = items.length then return (.sequence (items ++ [inner]), filled)
      else return (.sequence (items.set index inner), filled)

def checkTables (store : Store) (cell : Cell) : Except Error Unit :=
  match cell.tables.find? fun id => !store.contains id with
  | none => .ok ()
  | some id => .error (.cantFind id.hex)

end Store
end ParamStore

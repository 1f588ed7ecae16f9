import ParamStore.Value.Source

set_option autoImplicit false

namespace ParamStore
namespace Value

def emptyFor : Segment → Value
  | .key _ => .table []
  | .index _ => .sequence []

-- Containers that were created on the way stay when a later step fails.
def place (path : Text) (item : Flagged Value) :
    List Segment → Segment → Value → Value × Except Error Unit
  | [], .key key, .table entries => (.table (Keyed.put key item entries), .ok ())
  | next :: rest, .key key, .table entries =>
    let slot := (Keyed.lookup key entries).getD ⟨item.inProlog, emptyFor next⟩
    let inner := place path item rest next slot.value
    (.table (Keyed.put key ⟨slot.inProlog, inner.1⟩ entries), inner.2)
  | [], .index index, .sequence items =>
    if index < items.length then (.sequence (items.set index item), .ok ())
    else if index = items.length then (.sequence (items ++ [item]), .ok ())
    else (.sequence items, .error (.cantFind path))
  | next :: rest, .index index, .sequence items =>
    match items[index]? with
    | none => (.sequence items, .error (.cantFind path))
    | some slot =>
      let inner := place path item rest next slot.value
      (.sequence (items.set index ⟨slot.inProlog, inner.1⟩), inner.2)
  | _, segment, other => (other, .error (.typeMismatch (.noPlace segment path other.shape)))

def remove? : List Segment → Segment → Value → Option Value
  | [], .key key, .table entries =>
    if (Keyed.lookup key entries).isSome then some (.table (Keyed.remove key entries)) else none
  | next :: rest, .key key, .table entries =>
    match Keyed.lookup key entries with
    | none => none
    | some slot =>
      (remove? rest next slot.value).map fun inner =>
        .table (Keyed.put key ⟨slot.inProlog, inner⟩ entries)
  | [], .index index, .sequence items =>
    if index < items.length then some (.sequence (items.eraseIdx index)) else none
  | next :: rest, .index index, .sequence items =>
    match items[index]? with
    | none => none
    | some slot =>
      (remove? rest next slot.value).map fun inner =>
        .sequence (items.set index ⟨slot.inProlog, inner⟩)
  | _, _, _ => none

def toTable : Value → Table
  | table entries => ⟨entries⟩
  | _ => ⟨[]⟩

end Value

namespace Table

def empty : Table := ⟨[]⟩

def get? (table : Table) (key : Text) : Option (Flagged Value) := Keyed.lookup key table.entries

def set (table : Table) (key : Text) (item : Flagged Value) : Table :=
  ⟨Keyed.put key item table.entries⟩

def keys (table : Table) : List Text := Keyed.keys table.entries

def size (table : Table) : Nat := table.entries.length

def follow (table : Table) (path : Path) : Except Error (Flagged Value) :=
  match table.get? path.root with
  | none => .error (.cantFind path.root)
  | some item => Value.follow path.rest item

-- A missing key or index is reported by the whole path.
def find (table : Table) (path : Text) : Except Error (Flagged Value) := do
  let parsed ← Path.read path
  (table.follow parsed).mapError (Error.missingAt path)

def contains (table : Table) (path : Text) : Bool := (table.find path).isOk

def insert (table : Table) (path : Text) (item : Flagged Value) : Table × Except Error Unit :=
  match Path.read path with
  | .error error => (table, .error error)
  | .ok parsed =>
    let placed := Value.place path item parsed.rest (.key parsed.root) (.table table.entries)
    (placed.1.toTable, placed.2)

def erase (table : Table) (path : Text) : Table × Bool :=
  match Path.read path with
  | .error _ => (table, false)
  | .ok parsed =>
    match Value.remove? parsed.rest (.key parsed.root) (.table table.entries) with
    | none => (table, false)
    | some rest => (rest.toTable, true)

def insertValue (table : Table) (path : Text) (inProlog : Bool) (value : Except Error Value) :
    Table × Except Error Unit :=
  match value with
  | .error error => (table, .error error)
  | .ok value => table.insert path ⟨inProlog, value⟩

end Table
end ParamStore

import ParamStore.Json
import ParamStore.Store

set_option autoImplicit false

namespace ParamStore

def integerJson (text : Text) : Except Error Json := do
  let value ← decodeInt text
  if IntType.i64.Holds value ∨ IntType.u64.Holds value then return .integer value
  else return .string text

def floatJson (text : Text) : Except Error Json := do
  let value ← decodeFloat text
  if value.isFinite then return .float value else return .string text

def Atom.json (atom : Atom) : Except Error Json :=
  match atom.kind with
  | .nil => .ok .null
  | .bool => (decodeBool atom.text).map .bool
  | .integer => integerJson atom.text
  | .float => floatJson atom.text
  | .complex => .ok (.string atom.text)
  | .string => (decodeString atom.text).map .string

namespace Cell

mutual
def jsonWith (table : Identifier → Except Error Json) : Cell → Except Error Json
  | .atom a => a.json
  | .sequence items => (itemJsons table items).map .array
  | .table id => table id
def itemJsons (table : Identifier → Except Error Json) : List Cell → Except Error (List Json)
  | [] => .ok []
  | item :: tail => do
    let first ← jsonWith table item
    let rest ← itemJsons table tail
    return first :: rest
end

end Cell

def memberJsons (table : Identifier → Except Error Json) :
    Keyed Cell → Except Error (List (Text × Json))
  | [] => .ok []
  | (key, cell) :: tail => do
    let first ← cell.jsonWith table
    let rest ← memberJsons table tail
    return (key, first) :: rest

namespace Store

def tableJson : List (Identifier × Entries) → Identifier → Except Error Json
  | [], id => .error (.cantFind id.hex)
  | (stored, entries) :: older, id =>
    if id = stored then (memberJsons (tableJson older) entries.cells).map .object
    else tableJson older id

def cellJson (store : Store) (cell : Cell) : Except Error Json :=
  cell.jsonWith (tableJson store.contents)

def entriesJson (store : Store) (entries : Entries) : Except Error Json :=
  (memberJsons (tableJson store.contents) entries.cells).map .object

end Store
end ParamStore

import ParamStore.ParameterSet

set_option autoImplicit false

namespace ParamStore

inductive Ty where
  | nil
  | bool
  | int (type : IntType)
  | single
  | double
  | complex
  | string
  | set
  | cell
  | option (inner : Ty)
  | list (inner : Ty)
deriving DecidableEq, Repr

namespace Ty

def Value : Ty → Type
  | nil => Unit
  | bool => Bool
  | int type => type.Number
  | single => Single
  | double => Double
  | complex => Complex
  | string => Text
  | set => ParameterSet
  | cell => Cell
  | option inner => Option inner.Value
  | list inner => List inner.Value

def isIntegral (text : Text) : Bool :=
  match decodeInt text with
  | .error (.typeMismatch _) => false
  | _ => true

def integralCell : Cell → Bool
  | .atom ⟨.integer, _⟩ => true
  | .atom ⟨.float, text⟩ => isIntegral text
  | _ => false

def hasKind (kind : AtomKind) : Cell → Bool
  | .atom a => a.kind == kind
  | _ => false

-- Accepted cells can still fail to decode.
def accepts : Ty → Cell → Bool
  | nil, found => found.isNil
  | bool, found => hasKind .bool found
  | int _, found => integralCell found
  | single, found => hasKind .float found
  | double, found => hasKind .float found
  | complex, found => hasKind .complex found
  | string, found => hasKind .string found
  | set, .table _ => true
  | set, _ => false
  | Ty.cell, _ => true
  | option inner, found => found.isNil || accepts inner found
  | list inner, .sequence items => items.all (accepts inner)
  | list _, _ => false

def integralText (cell : Cell) : Except Error Text :=
  match cell with
  | .atom ⟨.float, text⟩ => .ok text
  | other => other.expectAtom .integer

def decode (depot : Depot) (home : Nat) : (ty : Ty) → Cell → Except Error ty.Value
  | nil, found => do decodeNil (← found.expectAtom .nil)
  | bool, found => do decodeBool (← found.expectAtom .bool)
  | int type, found => do decodeSized type (← integralText found)
  | single, found => do decodeSingle (← found.expectAtom .float)
  | double, found => do decodeFloat (← found.expectAtom .float)
  | complex, found => do decodeComplex (← found.expectAtom .complex)
  | string, found => do decodeString (← found.expectAtom .string)
  | set, .table id => depot.fetch home id
  | set, other => .error (.typeMismatch (.unexpectedShape .table other.shape))
  | Ty.cell, found => .ok found
  | option inner, found => if found.isNil then .ok none else (decode depot home inner found).map some
  | list inner, .sequence items => items.mapM (decode depot home inner)
  | list _, other => .error (.typeMismatch (.unexpectedShape .sequence other.shape))

def encodeDouble (value : Double) : Except Error Cell := (encodeFloat value).map (Cell.of .float)

def joinedComplex (value : Complex) : Except Error Cell := do
  let (re, im) ← encodeComplex value
  return .of .complex (Complex.join re im)

def encodeItems {α : Type} (encode : α → Depot → Except Error (Cell × Depot)) :
    List α → Depot → Except Error (List Cell × Depot)
  | [], depot => .ok ([], depot)
  | item :: tail, depot => do
    let (first, filled) ← encode item depot
    let (rest, last) ← encodeItems encode tail filled
    return (first :: rest, last)

-- Sets are stored in the depot's store `home`; the tables that a cell names have to be there.
def encode (home : Nat) : (ty : Ty) → ty.Value → Depot → Except Error (Cell × Depot)
  | nil, _, depot => .ok (Cell.nil, depot)
  | bool, value, depot => .ok (.of .bool (encodeBool value), depot)
  | int _, value, depot => .ok (.of .integer (encodeInt value.1), depot)
  | single, value, depot => (encodeDouble value.widen).map (·, depot)
  | double, value, depot => (encodeDouble value).map (·, depot)
  | complex, value, depot => (joinedComplex value).map (·, depot)
  | string, value, depot => (encodeString value).map (Cell.of .string ·, depot)
  | set, value, depot => (depot.put home value).map fun stored => (.table stored.1, stored.2)
  | Ty.cell, value, depot => ((depot.store home).checkTables value).map fun _ => (value, depot)
  | option _, none, depot => .ok (Cell.nil, depot)
  | option inner, some value, depot => encode home inner value depot
  | list inner, values, depot =>
    (encodeItems (encode home inner) values depot).map fun encoded => (.sequence encoded.1, encoded.2)

end Ty

namespace ParameterSet

def get (depot : Depot) (set : ParameterSet) (ty : Ty) (path : Text) : Except Error ty.Value := do
  let cell ← set.find (depot.store set.home) path
  (ty.decode depot set.home cell).mapError (Error.within path)

def getOr (depot : Depot) (set : ParameterSet) (ty : Ty) (path : Text) (fallback : ty.Value) :
    Except Error ty.Value :=
  match set.find (depot.store set.home) path with
  | .ok cell =>
    if ty.accepts cell then (ty.decode depot set.home cell).mapError (Error.within path)
    else .ok fallback
  | .error (.cantFind _) => .ok fallback
  | .error (.typeMismatch _) => .ok fallback
  | .error error => .error error

def getIfPresent (depot : Depot) (set : ParameterSet) (ty : Ty) (path : Text) :
    Except Error (Option ty.Value) :=
  match set.find (depot.store set.home) path with
  | .ok cell => ((ty.decode depot set.home cell).mapError (Error.within path)).map some
  | .error (.cantFind _) => .ok none
  | .error error => .error error

def convert {α : Type} (path : Text) (reader : Text → Except Text α) (cell : Cell) :
    Except Error α :=
  match cell with
  | .atom a => do
    let text ← a.plainText
    (reader text).mapError (Error.conversion path)
  | other => .error (.typeMismatch (.notSingle path other.shape))

def getWith {α : Type} (depot : Depot) (set : ParameterSet) (path : Text)
    (reader : Text → Except Text α) : Except Error α := do
  let cell ← set.find (depot.store set.home) path
  convert path reader cell

def getIfPresentWith {α : Type} (depot : Depot) (set : ParameterSet) (path : Text)
    (reader : Text → Except Text α) : Except Error (Option α) :=
  match set.find (depot.store set.home) path with
  | .ok cell => (convert path reader cell).map some
  | .error (.cantFind _) => .ok none
  | .error error => .error error

-- What encoding the value stored stays stored when the path refuses it.
def put (depot : Depot) (set : ParameterSet) (ty : Ty) (path : Text) (overwrite : Bool)
    (value : ty.Value) : (ParameterSet × Depot) × Except Error Unit :=
  match ty.encode set.home value depot with
  | .error error => ((set, depot), .error error)
  | .ok (cell, filled) =>
    match set.place (filled.store set.home) path overwrite cell with
    | .error error => ((set, filled), .error error)
    | .ok (changed, store) => ((changed, filled.setStore set.home store), .ok ())

end ParameterSet
end ParamStore

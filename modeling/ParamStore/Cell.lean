import ParamStore.Complex
import ParamStore.Digest.Framing
import ParamStore.Keyed
import ParamStore.Text.Quoted

set_option autoImplicit false

namespace ParamStore

inductive AtomKind where
  | nil
  | bool
  | integer
  | float
  | complex
  | string
deriving DecidableEq, Repr

namespace AtomKind

def code : AtomKind → UInt8
  | nil => 0
  | bool => 1
  | integer => 2
  | float => 3
  | complex => 4
  | string => 5

def shape : AtomKind → Shape
  | nil => .nil
  | bool => .bool
  | integer => .integer
  | float => .float
  | complex => .complex
  | string => .string

def ofNumber : NumberKind → AtomKind
  | .integer => integer
  | .float => float

end AtomKind

structure Atom where
  kind : AtomKind
  text : Text
deriving DecidableEq, Repr

def Atom.plainText (atom : Atom) : Except Error Text :=
  match atom.kind with
  | .string => decodeString atom.text
  | _ => .ok atom.text

inductive Cell where
  | atom (atom : Atom)
  | sequence (items : List Cell)
  | table (id : Identifier)

namespace Cell

mutual
def same : Cell → Cell → Bool
  | .atom a, .atom b => a == b
  | .sequence a, .sequence b => sameItems a b
  | .table a, .table b => a == b
  | _, _ => false
def sameItems : List Cell → List Cell → Bool
  | [], [] => true
  | item :: tail, other :: otherTail => same item other && sameItems tail otherTail
  | _, _ => false
end

mutual
theorem same_iff (x y : Cell) : same x y = true ↔ x = y := by
  cases x <;> cases y <;> simp [same, same_items_iff]
theorem same_items_iff (x y : List Cell) : sameItems x y = true ↔ x = y := by
  match x, y with
  | [], [] => simp [sameItems]
  | [], _ :: _ => simp [sameItems]
  | _ :: _, [] => simp [sameItems]
  | item :: tail, other :: otherTail =>
    simp [sameItems, same_iff item other, same_items_iff tail otherTail]
end

instance : DecidableEq Cell := fun x y => decidable_of_iff _ (same_iff x y)

def of (kind : AtomKind) (text : Text) : Cell := atom ⟨kind, text⟩

def nil : Cell := of .nil nilWord

def isNil : Cell → Bool
  | atom ⟨.nil, _⟩ => true
  | _ => false

def shape : Cell → Shape
  | atom a => a.kind.shape
  | sequence _ => .sequence
  | table _ => .table

def expectAtom (kind : AtomKind) (cell : Cell) : Except Error Text :=
  match cell with
  | atom a => if a.kind = kind then .ok a.text
    else .error (.typeMismatch (.unexpectedShape kind.shape cell.shape))
  | other => .error (.typeMismatch (.unexpectedShape kind.shape other.shape))

mutual
def tables : Cell → List Identifier
  | .atom _ => []
  | .sequence items => itemTables items
  | .table id => [id]
def itemTables : List Cell → List Identifier
  | [] => []
  | item :: tail => tables item ++ itemTables tail
end

mutual
def stream : Cell → List UInt8
  | .atom a => Framing.tag 0 ++ Framing.tag a.kind.code ++ Framing.text a.text
  | .sequence items => Framing.tag 1 ++ Framing.count items.length ++ itemStream items
  | .table id => Framing.tag 2 ++ Framing.digest id
def itemStream : List Cell → List UInt8
  | [] => []
  | item :: tail => stream item ++ itemStream tail
end

mutual
def textWith (table : Identifier → Text) : Cell → Text
  | .atom a => a.text
  | .sequence items => '[' :: Text.joined [','] (itemTexts table items) ++ [']']
  | .table id => table id
def itemTexts (table : Identifier → Text) : List Cell → List Text
  | [] => []
  | item :: tail => textWith table item :: itemTexts table tail
end

end Cell

structure Entries where
  cells : Keyed Cell
  ordered : cells.Ordered
deriving DecidableEq

namespace Entries

def empty : Entries := ⟨[], List.Pairwise.nil⟩

def lookup (entries : Entries) (key : Text) : Option Cell := entries.cells.lookup key

def put (entries : Entries) (key : Text) (cell : Cell) : Entries :=
  ⟨entries.cells.put key cell, Keyed.ordered_put key cell entries.cells entries.ordered⟩

def remove (entries : Entries) (key : Text) : Entries :=
  ⟨entries.cells.remove key, Keyed.ordered_remove key entries.cells entries.ordered⟩

def keys (entries : Entries) : List Text := entries.cells.keys

def size (entries : Entries) : Nat := entries.cells.length

def tables (entries : Entries) : List Identifier := entries.cells.flatMap fun entry =>
  entry.2.tables

def stream (entries : Entries) : List UInt8 :=
  Framing.count entries.size ++
    entries.cells.flatMap fun entry => Framing.text entry.1 ++ entry.2.stream

def identifier (entries : Entries) : Identifier := sha256 entries.stream

def textWith (table : Identifier → Text) (entries : Entries) : Text :=
  Text.joined [' '] (entries.cells.map fun entry => entry.1 ++ ':' :: entry.2.textWith table)

end Entries
end ParamStore

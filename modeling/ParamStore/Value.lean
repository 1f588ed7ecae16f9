import ParamStore.Complex
import ParamStore.Keyed
import ParamStore.Text.Quoted

set_option autoImplicit false

namespace ParamStore

-- Values from a prolog are flagged: they may be referred to and are left out of parameter sets.
structure Flagged (α : Type) where
  inProlog : Bool
  value : α
deriving DecidableEq, Repr

inductive Value where
  | nil
  | bool (value : Bool)
  | number (value : Number)
  | complex (re im : Number)
  | string (text : Text)
  | sequence (items : List (Flagged Value))
  | table (entries : List (Text × Flagged Value))

structure Table where
  entries : Keyed (Flagged Value)

namespace Value

mutual
def same : Value → Value → Bool
  | .nil, .nil => true
  | .bool a, .bool b => a == b
  | .number a, .number b => a == b
  | .complex a b, .complex c d => a == c && b == d
  | .string a, .string b => a == b
  | .sequence a, .sequence b => sameItems a b
  | .table a, .table b => sameEntries a b
  | _, _ => false
def sameItems : List (Flagged Value) → List (Flagged Value) → Bool
  | [], [] => true
  | ⟨flag, value⟩ :: tail, ⟨otherFlag, other⟩ :: otherTail =>
    flag == otherFlag && same value other && sameItems tail otherTail
  | _, _ => false
def sameEntries : List (Text × Flagged Value) → List (Text × Flagged Value) → Bool
  | [], [] => true
  | (key, ⟨flag, value⟩) :: tail, (otherKey, ⟨otherFlag, other⟩) :: otherTail =>
    key == otherKey && flag == otherFlag && same value other && sameEntries tail otherTail
  | _, _ => false
end

mutual
theorem same_iff (x y : Value) : same x y = true ↔ x = y := by
  cases x <;> cases y <;>
    simp [same, same_items_iff, same_entries_iff]
theorem same_items_iff (x y : List (Flagged Value)) : sameItems x y = true ↔ x = y := by
  match x, y with
  | [], [] => simp [sameItems]
  | [], _ :: _ => simp [sameItems]
  | _ :: _, [] => simp [sameItems]
  | ⟨_, value⟩ :: tail, ⟨_, other⟩ :: otherTail =>
    simp [sameItems, same_iff value other, same_items_iff tail otherTail]
theorem same_entries_iff (x y : List (Text × Flagged Value)) :
    sameEntries x y = true ↔ x = y := by
  match x, y with
  | [], [] => simp [sameEntries]
  | [], _ :: _ => simp [sameEntries]
  | _ :: _, [] => simp [sameEntries]
  | (_, ⟨_, value⟩) :: tail, (_, ⟨_, other⟩) :: otherTail =>
    simp [sameEntries, same_iff value other, same_entries_iff tail otherTail, and_assoc]
end

instance : DecidableEq Value := fun x y => decidable_of_iff _ (same_iff x y)

def shape : Value → Shape
  | nil => .nil
  | bool _ => .bool
  | number _ => .number
  | complex _ _ => .complex
  | string _ => .string
  | sequence _ => .sequence
  | table _ => .table

def ofString (raw : Text) : Except Error Value := (encodeString raw).map string

def ofComplex (value : Complex) : Except Error Value := do
  let re ← Number.ofFloat value.re
  let im ← Number.ofFloat value.im
  return complex re im

def member (key : Text) : Value → Except Error (Flagged Value)
  | table entries =>
    match Keyed.lookup key entries with
    | some item => .ok item
    | none => .error (.cantFind key)
  | other => .error (.typeMismatch (.noMember key other.shape))

def element (place : Nat) : Value → Except Error (Flagged Value)
  | sequence items =>
    match items[place]? with
    | some item => .ok item
    | none => .error (.cantFind (Segment.index place).text)
  | other => .error (.typeMismatch (.noElement place other.shape))

def step : Segment → Value → Except Error (Flagged Value)
  | .key name => member name
  | .index place => element place

def follow : List Segment → Flagged Value → Except Error (Flagged Value)
  | [], item => .ok item
  | segment :: rest, item => do
    let inner ← item.value.step segment
    follow rest inner

end Value

instance : DecidableEq Table := fun x y =>
  decidable_of_iff (x.entries = y.entries) (by cases x; cases y; simp)

end ParamStore

import ParamStore.Text

set_option autoImplicit false

namespace ParamStore

inductive Width where
  | w8
  | w16
  | w32
  | w64
  | w128
  /-- The size of an address: 64 bits. -/
  | word
deriving DecidableEq, Repr

def Width.bits : Width → Nat
  | w8 => 8
  | w16 => 16
  | w32 => 32
  | w64 => 64
  | w128 => 128
  | word => 64

def Width.name : Width → String
  | w8 => "8"
  | w16 => "16"
  | w32 => "32"
  | w64 => "64"
  | w128 => "128"
  | word => "size"

def Width.count (width : Width) : Nat := Nat.pow 2 width.bits

structure IntType where
  signed : Bool
  width : Width
deriving DecidableEq, Repr

namespace IntType

def i64 : IntType := ⟨true, .w64⟩
def u64 : IntType := ⟨false, .w64⟩
def i128 : IntType := ⟨true, .w128⟩
def u128 : IntType := ⟨false, .w128⟩

def name (type : IntType) : String := (if type.signed then "i" else "u") ++ type.width.name

def least (type : IntType) : Int :=
  if type.signed then -(type.width.count / 2 : Nat) else 0

def greatest (type : IntType) : Int :=
  if type.signed then (type.width.count / 2 : Nat) - 1 else (type.width.count : Int) - 1

def Holds (type : IntType) (n : Int) : Prop := type.least ≤ n ∧ n ≤ type.greatest

instance (type : IntType) (n : Int) : Decidable (type.Holds n) :=
  inferInstanceAs (Decidable (_ ∧ _))

def Number (type : IntType) : Type := { n : Int // type.Holds n }

end IntType
end ParamStore

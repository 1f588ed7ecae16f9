import ParamStore.Number.Binary

set_option autoImplicit false

namespace ParamStore

/-- The number `0.d₁d₂… · 10 ^ point`. -/
structure Digits where
  digits : Text
  point : Int
deriving DecidableEq, Repr

inductive Ties where
  | away
  | even
deriving DecidableEq, Repr

namespace Digits

def dropZeros (digits : Text) : Text := (digits.reverse.dropWhile (· == '0')).reverse

def ofNat (count : Nat) (power : Int) : Digits :=
  let digits := Text.ofNat count
  ⟨dropZeros digits, digits.length + power⟩

end Digits

namespace Format

-- The value of a magnitude is this many times `10 ^ -scale`.
def tenths (format : Format) (magnitude : Nat) : Nat :=
  format.units magnitude * Nat.pow 5 format.scale

def roundsTo (format : Format) (magnitude count : Nat) : Bool :=
  format.round count (Nat.pow 10 format.scale) == magnitude

def neighbours (ties : Ties) (value step : Nat) : List Nat :=
  let below := value / step
  let twice := 2 * (value % step)
  let upFirst := decide (step < twice) ||
    twice == step && (match ties with | .away => true | .even => below % 2 == 1)
  if upFirst then [(below + 1) * step, below * step] else [below * step, (below + 1) * step]

def shortened? (format : Format) (ties : Ties) (magnitude value size places : Nat) : Option Nat :=
  (neighbours ties value (Nat.pow 10 (size - places))).find? (format.roundsTo magnitude)

-- Seventeen digits suffice for the double format.
def mostDigits : Nat := 17

-- The fewest digits that round back to the number, and of those the nearest to it.
def shortest (format : Format) (ties : Ties) (magnitude : Nat) : Digits :=
  let value := format.tenths magnitude
  let size := (Text.ofNat value).length
  let found := (List.range mostDigits).findSome? fun places =>
    format.shortened? ties magnitude value size (places + 1)
  Digits.ofNat (found.getD value) (-format.scale)

end Format
end ParamStore

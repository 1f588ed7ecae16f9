import ParamStore.Text

set_option autoImplicit false

namespace ParamStore

def Text.splitSign : Text → Bool × Text
  | [] => (false, [])
  | first :: rest =>
    if first = '-' then (true, rest)
    else if first = '+' then (false, rest)
    else (false, first :: rest)

structure Decimal where
  whole : Text
  fraction : Text
  exponent : Int
deriving DecidableEq, Repr

namespace Decimal

def isExponentMark (c : Char) : Bool := c == 'e' || c == 'E'

def mantissa? (text : Text) : Option (Text × Text) :=
  let whole : Text := text.takeWhile (· != '.')
  let fraction : Text := (text.dropWhile (· != '.')).tail
  if whole.allDigits ∧ fraction.allDigits ∧ (whole ≠ [] ∨ fraction ≠ []) then
    some (whole, fraction)
  else none

def exponent? (text : Text) : Option Int :=
  let (negative, digits) := Text.splitSign text
  if digits ≠ [] ∧ digits.allDigits then
    some (if negative then -(digits.toNat : Int) else digits.toNat)
  else none

def ofText? (text : Text) : Option Decimal :=
  let front : Text := text.takeWhile fun c => !isExponentMark c
  let back : Text := text.dropWhile fun c => !isExponentMark c
  match mantissa? front, back with
  | none, _ => none
  | some (whole, fraction), [] => some ⟨whole, fraction, 0⟩
  | some (whole, fraction), _ :: power => (exponent? power).map (⟨whole, fraction, ·⟩)

def significant (decimal : Decimal) : Text :=
  (decimal.whole ++ decimal.fraction).dropWhile (· == '0')

-- The value is `0.d₁d₂…` times ten to this power, `d₁d₂…` being the significant digits.
def point (decimal : Decimal) : Int :=
  decimal.whole.length + decimal.exponent -
    ((decimal.whole ++ decimal.fraction).length - decimal.significant.length : Nat)

end Decimal
end ParamStore

import ParamStore.Error
import ParamStore.Number.Decimal
import ParamStore.Number.Written

set_option autoImplicit false

namespace ParamStore

def mostPlainDigits : Nat := 6

def exponentText (power : Nat) : Text :=
  if power < 10 then '+' :: '0' :: Text.ofNat power else '+' :: Text.ofNat power

-- From the seventh digit on a point follows the first digit and an exponent the last.
def integerText (negative : Bool) (digits : Text) : Text :=
  match digits.dropWhile (· == '0') with
  | [] => ['+', '0']
  | first :: rest =>
    let sign := if negative then '-' else '+'
    if mostPlainDigits ≤ rest.length then
      sign :: first :: '.' :: rest ++ 'e' :: exponentText rest.length
    else sign :: first :: rest

def encodeInt (n : Int) : Text := integerText (n < 0) (Text.ofNat n.natAbs)

namespace Decimal

-- No integer of at least `10 ^ 39` fits 128 bits.
def mostPlaces : Nat := 39

-- A quarter of what 64 bits with a sign hold. No shift of the point by lengths of texts comes near the rest.
def mostExponent : Nat := (Nat.pow 2 63 - 1) / 4

def clamped (decimal : Decimal) : Decimal :=
  { decimal with exponent :=
      if (mostExponent : Int) < decimal.exponent then mostExponent
      else if decimal.exponent < -(mostExponent : Int) then -(mostExponent : Int)
      else decimal.exponent }

def magnitude (text : Text) (decimal : Decimal) : Except Error Nat :=
  let places := decimal.point.toNat
  if decimal.significant = [] then .ok 0
  else if decimal.point ≤ 0 then .error (.typeMismatch (.notIntegral text))
  else if mostPlaces < places then .error (.tooLarge text .integer)
  else if (decimal.significant.drop places).any (· != '0') then
    .error (.typeMismatch (.notIntegral text))
  else
    let value := (Text.toNat (decimal.significant.take places)) *
      Nat.pow 10 (places - decimal.significant.length)
    if value < Width.w128.count then .ok value else .error (.tooLarge text .integer)

end Decimal

def decodeMagnitude (text : Text) : Except Error (Bool × Nat) :=
  let (negative, body) := Text.splitSign text
  if body = Text.infinity then .error (.tooLarge text .integer)
  else
    match Decimal.ofText? body with
    | none => .error (.typeMismatch (.malformed .number text))
    | some decimal => (decimal.clamped.magnitude text).map (negative, ·)

def decodeInt (text : Text) : Except Error Int := do
  let (negative, size) ← decodeMagnitude text
  let value : Int := if negative then -(size : Int) else size
  if IntType.i128.Holds value then .ok value else .error (.tooLarge text .integer)

def decodeUInt (text : Text) : Except Error Nat := do
  let (negative, size) ← decodeMagnitude text
  if negative ∧ size ≠ 0 then .error (.tooLarge text (.sized .u128)) else .ok size

-- Only the widest unsigned type goes beyond the signed range of 128 bits, so the others pass through it.
def decodeSized (type : IntType) (text : Text) : Except Error type.Number := do
  let value ← if type = .u128 then (decodeUInt text).map Int.ofNat else decodeInt text
  if inside : type.Holds value then .ok ⟨value, inside⟩ else .error (.tooLarge text (.sized type))

namespace Binary

-- Decimals from `10 ^ mostPoint` on are infinite, those below `10 ^ leastPoint` are zero.
def mostPoint : Int := 310
def leastPoint : Int := -330

def ofDecimal (negative : Bool) (decimal : Decimal) : Double :=
  if decimal.significant = [] ∨ decimal.point < leastPoint then zero negative
  else if mostPoint < decimal.point then infinity negative
  else
    let power : Int := decimal.point - decimal.significant.length
    nearest negative (Text.toNat decimal.significant * Nat.pow 10 power.toNat)
      (Nat.pow 10 (-power).toNat)

-- Below this, numbers that are not integral are written with an exponent.
def leastPlain : Nat := Format.double.round 1 (Nat.pow 10 5)

end Binary

def encodeFloat (x : Double) : Except Error Text :=
  if x.isNaN then .error (.typeMismatch .notANumber)
  else if x.isInfinite then .ok ((if x.negative then '-' else '+') :: Text.infinity)
  else if x.isIntegral then .ok (integerText x.negative (Text.ofNat x.whole))
  else
    let shortest := Format.double.shortest .away x.magnitude
    .ok (Binary.signed x.negative
      (if x.magnitude < Binary.leastPlain then shortest.scientific Text.ofInt
      else shortest.positional))

def decodeFloat (text : Text) : Except Error Double :=
  let (negative, body) := Text.splitSign text
  if body = Text.infinity then .ok (.infinity negative)
  else
    match Decimal.ofText? body with
    | none => .error (.typeMismatch (.malformed .float text))
    | some decimal =>
      let x := Binary.ofDecimal negative decimal
      if x.isInfinite then .error (.tooLarge text .double) else .ok x

def exceedsSingle (x : Double) : Bool :=
  x.isFinite && decide (Format.single.units Format.single.greatest * Format.double.one <
    x.units * Format.single.one)

def decodeSingle (text : Text) : Except Error Single := do
  let wide ← decodeFloat text
  if exceedsSingle wide then .error (.tooLarge text .single) else .ok wide.narrow

inductive NumberKind where
  | integer
  | float
deriving DecidableEq, Repr

-- Integers and floats are kept apart: `1` and `1.0` share the text `+1` and are different numbers.
structure Number where
  kind : NumberKind
  text : Text
deriving DecidableEq, Repr

namespace Number

def isIntegerLiteral (literal : Text) : Bool :=
  let body := (Text.splitSign literal).2
  body != [] && body.allDigits

def ofLiteral (literal : Text) : Except Error Number :=
  if isIntegerLiteral literal then
    let (negative, digits) := Text.splitSign literal
    .ok ⟨.integer, integerText negative digits⟩
  else do
    let value ← decodeFloat literal
    let text ← encodeFloat value
    .ok ⟨.float, text⟩

def ofInt (n : Int) : Number := ⟨.integer, encodeInt n⟩

def ofFloat (x : Double) : Except Error Number := (encodeFloat x).map (⟨.float, ·⟩)

end Number
end ParamStore

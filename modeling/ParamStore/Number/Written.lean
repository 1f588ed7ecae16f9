import ParamStore.Number.Shortest

set_option autoImplicit false

namespace ParamStore
namespace Digits

def zeros (count : Nat) : Text := List.replicate count '0'

def positional (number : Digits) : Text :=
  if number.point ≤ 0 then
    '0' :: '.' :: zeros (-number.point).toNat ++ number.digits
  else
    let places := number.point.toNat
    if number.digits.length ≤ places then
      number.digits ++ zeros (places - number.digits.length)
    else number.digits.take places ++ '.' :: number.digits.drop places

def scientific (exponent : Int → Text) (number : Digits) : Text :=
  let tail : Text := number.digits.drop 1
  number.digits.take 1 ++ (if tail = [] then [] else '.' :: tail) ++
    'e' :: exponent (number.point - 1)

def signedExponent (power : Int) : Text :=
  if power < 0 then Text.ofInt power else '+' :: Text.ofInt power

def json (number : Digits) : Text :=
  let power := number.point - 1
  if -5 ≤ power ∧ power ≤ 15 then
    if number.digits.length ≤ number.point.toNat then number.positional ++ ['.', '0']
    else number.positional
  else number.scientific signedExponent

end Digits

namespace Binary

def signed (negative : Bool) (text : Text) : Text := if negative then '-' :: text else text

def plainText (x : Double) : Text :=
  if x.isNaN then ['N', 'a', 'N']
  else if x.isInfinite then signed x.negative ['i', 'n', 'f']
  else if x.magnitude = 0 then signed x.negative ['0']
  else signed x.negative (Format.double.shortest .away x.magnitude).positional

def jsonText (x : Double) : Text :=
  if x.magnitude = 0 then signed x.negative ['0', '.', '0']
  else signed x.negative (Format.double.shortest .even x.magnitude).json

end Binary
end ParamStore

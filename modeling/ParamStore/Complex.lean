import ParamStore.Number

set_option autoImplicit false

namespace ParamStore

structure Complex where
  re : Double
  im : Double
deriving DecidableEq

namespace Complex

def join (re im : Text) : Text := '(' :: re ++ ',' :: im ++ [')']

def inside? : Text → Option Text
  | '(' :: rest => if rest.getLast? = some ')' then some rest.dropLast else none
  | _ => none

-- The parentheses hold exactly one comma.
def split (text : Text) : Except Error (Text × Text) :=
  match inside? text with
  | some inside =>
    if inside.count ',' = 1 then
      let re : Text := inside.takeWhile (· != ',')
      let im : Text := (inside.dropWhile (· != ',')).tail
      .ok (re.trim, im.trim)
    else .error (.typeMismatch (.malformed .complex text))
  | none => .error (.typeMismatch (.malformed .complex text))

def plainText (value : Complex) : Text := join value.re.plainText value.im.plainText

end Complex

def encodeComplex (value : Complex) : Except Error (Text × Text) := do
  let re ← encodeFloat value.re
  let im ← encodeFloat value.im
  return (re, im)

def decodeComplex (text : Text) : Except Error Complex := do
  let (re, im) ← Complex.split text
  let re ← decodeFloat re
  let im ← decodeFloat im
  return ⟨re, im⟩

def nilWord : Text := ['n', 'i', 'l']
def trueWord : Text := ['t', 'r', 'u', 'e']
def falseWord : Text := ['f', 'a', 'l', 's', 'e']

def encodeBool (value : Bool) : Text := if value then trueWord else falseWord

def decodeBool (text : Text) : Except Error Bool :=
  if text = trueWord then .ok true
  else if text = falseWord then .ok false
  else .error (.typeMismatch (.malformed .bool text))

def decodeNil (text : Text) : Except Error Unit :=
  if text = nilWord then .ok () else .error (.typeMismatch (.malformed .nil text))

def joinSequence (items : List Text) : Text := '[' :: Text.joined [','] items ++ [']']

end ParamStore

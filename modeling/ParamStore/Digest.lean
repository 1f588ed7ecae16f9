import ParamStore.Error

set_option autoImplicit false

namespace ParamStore

structure Digest where
  bytes : List UInt8
  size : bytes.length = 32
deriving DecidableEq

abbrev Identifier := Digest

namespace Digest

def hexByte (byte : UInt8) : Text :=
  [Nat.digitChar (byte.toNat / 16), Nat.digitChar (byte.toNat % 16)]

def hex (digest : Digest) : Text := digest.bytes.flatMap hexByte

-- A plus sign may stand in place of the first digit.
def byte? (high low : Char) : Option UInt8 :=
  match Text.hexValue? low with
  | none => none
  | some ones =>
    if high = '+' then some (UInt8.ofNat ones)
    else (Text.hexValue? high).map fun sixteens => UInt8.ofNat (16 * sixteens + ones)

def bytes? : Text → Option (List UInt8)
  | [] => some []
  | [_] => none
  | high :: low :: rest =>
    match byte? high low with
    | none => none
    | some byte => (bytes? rest).map (byte :: ·)

def ofHex? (text : Text) : Option Digest :=
  match bytes? text with
  | none => none
  | some bytes => if size : bytes.length = 32 then some ⟨bytes, size⟩ else none

def read (text : Text) : Except Error Digest :=
  match ofHex? text with
  | some digest => .ok digest
  | none => .error (.typeMismatch (.malformed .identifier text))

end Digest
end ParamStore

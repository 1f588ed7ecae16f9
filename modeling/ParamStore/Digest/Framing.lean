import ParamStore.Digest.Sha256

set_option autoImplicit false

namespace ParamStore
namespace Framing

-- A tag is one byte, a count eight, a text its count of bytes and then the bytes, so that no two walks
-- over different contents give the same bytes.
def tag (code : UInt8) : List UInt8 := [code]

def count (n : Nat) : List UInt8 :=
  [0, 8, 16, 24, 32, 40, 48, 56].map fun shift => UInt8.ofNat (n >>> shift)

def utf8 (content : Text) : List UInt8 := content.flatMap String.utf8EncodeChar

def text (content : Text) : List UInt8 :=
  let bytes := utf8 content
  count bytes.length ++ bytes

def digest (value : Digest) : List UInt8 := value.bytes

end Framing
end ParamStore

set_option autoImplicit false

namespace ParamStore

abbrev Text := List Char

namespace Text

-- The code points with the Unicode property White_Space, as closed ranges.
def blankRanges : List (Nat × Nat) :=
  [(0x09, 0x0D), (0x20, 0x20), (0x85, 0x85), (0xA0, 0xA0), (0x1680, 0x1680), (0x2000, 0x200A),
    (0x2028, 0x2029), (0x202F, 0x202F), (0x205F, 0x205F), (0x3000, 0x3000)]

def isBlank (c : Char) : Bool :=
  blankRanges.any fun range => range.1 ≤ c.toNat && c.toNat ≤ range.2

def trimLeft (text : Text) : Text := text.dropWhile isBlank
def trimRight (text : Text) : Text := (text.reverse.dropWhile isBlank).reverse
def trim (text : Text) : Text := trimRight (trimLeft text)

def isNameStart (c : Char) : Bool := c.isAlpha || c == '_'
def isNameChar (c : Char) : Bool := c.isAlphanum || c == '_'

def isKey : Text → Bool
  | [] => false
  | first :: rest => isNameStart first && rest.all isNameChar

def infinity : Text := ['i', 'n', 'f', 'i', 'n', 'i', 't', 'y']

-- The empty text counts.
def allDigits (text : Text) : Bool := text.all Char.isDigit

def hexValue? (c : Char) : Option Nat :=
  if c.isDigit then some (c.toNat - '0'.toNat)
  else if 'a' ≤ c ∧ c ≤ 'f' then some (c.toNat - 'a'.toNat + 10)
  else if 'A' ≤ c ∧ c ≤ 'F' then some (c.toNat - 'A'.toNat + 10)
  else none

def toNat (digits : Text) : Nat := Nat.ofDigitChars 10 digits 0

def ofNat (n : Nat) : Text := Nat.toDigits 10 n

def ofInt (n : Int) : Text := if n < 0 then '-' :: ofNat n.natAbs else ofNat n.natAbs

-- The inside of a text that starts and ends with `quote`, at two different places.
def enclosed? (quote : Char) : Text → Option Text
  | [] => none
  | first :: rest =>
    if first = quote ∧ rest.getLast? = some quote then some rest.dropLast else none

def joined (separator : Text) : List Text → Text
  | [] => []
  | [item] => item
  | item :: rest => item ++ separator ++ joined separator rest

end Text
end ParamStore

import ParamStore.Text

set_option autoImplicit false

namespace ParamStore

-- The magnitudes of a format are counted in order of size, from zero through the finite values to
-- infinity and then to what is not a number. The smallest positive value is `2 ^ -scale`.
structure Format where
  fractionBits : Nat
  scale : Nat
  exponents : Nat
deriving DecidableEq, Repr

namespace Format

def double : Format := ⟨52, 1074, 2047⟩
def single : Format := ⟨23, 149, 255⟩

def span (format : Format) : Nat := Nat.pow 2 format.fractionBits

def one (format : Format) : Nat := Nat.pow 2 format.scale

def infinity (format : Format) : Nat := format.exponents * format.span

def greatest (format : Format) : Nat := format.infinity - 1

def magnitudes (format : Format) : Nat := (format.exponents + 1) * format.span

-- The value of a magnitude, in multiples of the smallest positive value.
def units (format : Format) (magnitude : Nat) : Nat :=
  let exponent := magnitude / format.span
  let fraction := magnitude % format.span
  if exponent = 0 then fraction
  else (format.span + fraction) * Nat.pow 2 (exponent - 1)

def divHalfEven (dividend divisor : Nat) : Nat :=
  let quotient := dividend / divisor
  let twice := 2 * (dividend % divisor)
  if twice < divisor then quotient
  else if divisor < twice then quotient + 1
  else quotient + quotient % 2

-- The magnitude nearest to `dividend / divisor`, a half to the even one, at most infinity.
def round (format : Format) (dividend divisor : Nat) : Nat :=
  let scaled := dividend * format.one
  let shift := (scaled / divisor).log2 - format.fractionBits
  min (shift * format.span + divHalfEven scaled (divisor * Nat.pow 2 shift)) format.infinity

theorem round_le_infinity (format : Format) (dividend divisor : Nat) :
    format.round dividend divisor ≤ format.infinity := Nat.min_le_right _ _

theorem infinity_lt_magnitudes (format : Format) : format.infinity < format.magnitudes := by
  unfold infinity magnitudes
  rw [Nat.add_mul, Nat.one_mul]
  exact Nat.lt_add_of_pos_right (Nat.two_pow_pos _)

end Format

structure Binary (format : Format) where
  negative : Bool
  magnitude : Nat
  bound : magnitude < format.magnitudes
deriving DecidableEq

abbrev Double := Binary .double
abbrev Single := Binary .single

namespace Binary

variable {format : Format}

def infinity (negative : Bool) : Binary format :=
  ⟨negative, format.infinity, format.infinity_lt_magnitudes⟩

def nearest (negative : Bool) (dividend divisor : Nat) : Binary format :=
  ⟨negative, format.round dividend divisor,
    Nat.lt_of_le_of_lt (format.round_le_infinity dividend divisor) format.infinity_lt_magnitudes⟩

def zero (negative : Bool) : Binary format :=
  ⟨negative, 0, Nat.lt_of_le_of_lt (Nat.zero_le _) format.infinity_lt_magnitudes⟩

def isFinite (x : Binary format) : Bool := x.magnitude < format.infinity
def isInfinite (x : Binary format) : Bool := x.magnitude = format.infinity
def isNaN (x : Binary format) : Bool := format.infinity < x.magnitude

-- The absolute value of a finite number is `units / one`.
def units (x : Binary format) : Nat := format.units x.magnitude

def isIntegral (x : Binary format) : Bool := x.isFinite && x.units % format.one == 0

def whole (x : Binary format) : Nat := x.units / format.one

theorem magnitudes_pos (format : Format) : 0 < format.magnitudes :=
  Nat.lt_of_le_of_lt (Nat.zero_le _) format.infinity_lt_magnitudes

-- The topmost bit of an encoding is the sign, the others are the magnitude.
def ofBits (bits : Nat) : Binary format :=
  ⟨bits / format.magnitudes % 2 == 1, bits % format.magnitudes, Nat.mod_lt _ (magnitudes_pos format)⟩

def bits (x : Binary format) : Nat :=
  (if x.negative then format.magnitudes else 0) + x.magnitude

def ofBits64 (encoding : UInt64) : Double := ofBits encoding.toNat
def ofBits32 (encoding : UInt32) : Single := ofBits encoding.toNat
def bits64 (x : Double) : UInt64 := UInt64.ofNat x.bits
def bits32 (x : Single) : UInt32 := UInt32.ofNat x.bits

def convert (target : Format) (x : Binary format) : Binary target :=
  if x.isFinite then nearest x.negative x.units format.one
  else if x.isInfinite then infinity x.negative
  else ⟨x.negative, target.magnitudes - 1, by
    have below := target.infinity_lt_magnitudes
    omega⟩

def widen (x : Single) : Double := x.convert .double
def narrow (x : Double) : Single := x.convert .single

end Binary
end ParamStore

import ParamStore.Digest

set_option autoImplicit false

namespace ParamStore
namespace Sha256

def rotate (word : UInt32) (count : UInt32) : UInt32 :=
  (word >>> count) ||| (word <<< (32 - count))

-- The first 32 bits of the fractional parts of the cube roots of the first 64 primes.
def constants : List UInt32 :=
  [0x428a2f98, 0x71374491, 0xb5c0fbcf, 0xe9b5dba5, 0x3956c25b, 0x59f111f1, 0x923f82a4, 0xab1c5ed5,
    0xd807aa98, 0x12835b01, 0x243185be, 0x550c7dc3, 0x72be5d74, 0x80deb1fe, 0x9bdc06a7, 0xc19bf174,
    0xe49b69c1, 0xefbe4786, 0x0fc19dc6, 0x240ca1cc, 0x2de92c6f, 0x4a7484aa, 0x5cb0a9dc, 0x76f988da,
    0x983e5152, 0xa831c66d, 0xb00327c8, 0xbf597fc7, 0xc6e00bf3, 0xd5a79147, 0x06ca6351, 0x14292967,
    0x27b70a85, 0x2e1b2138, 0x4d2c6dfc, 0x53380d13, 0x650a7354, 0x766a0abb, 0x81c2c92e, 0x92722c85,
    0xa2bfe8a1, 0xa81a664b, 0xc24b8b70, 0xc76c51a3, 0xd192e819, 0xd6990624, 0xf40e3585, 0x106aa070,
    0x19a4c116, 0x1e376c08, 0x2748774c, 0x34b0bcb5, 0x391c0cb3, 0x4ed8aa4a, 0x5b9cca4f, 0x682e6ff3,
    0x748f82ee, 0x78a5636f, 0x84c87814, 0x8cc70208, 0x90befffa, 0xa4506ceb, 0xbef9a3f7, 0xc67178f2]

structure State where
  a : UInt32
  b : UInt32
  c : UInt32
  d : UInt32
  e : UInt32
  f : UInt32
  g : UInt32
  h : UInt32

-- The first 32 bits of the fractional parts of the square roots of the first eight primes.
def initial : State :=
  ⟨0x6a09e667, 0xbb67ae85, 0x3c6ef372, 0xa54ff53a, 0x510e527f, 0x9b05688c, 0x1f83d9ab, 0x5be0cd19⟩

def State.add (x y : State) : State :=
  ⟨x.a + y.a, x.b + y.b, x.c + y.c, x.d + y.d, x.e + y.e, x.f + y.f, x.g + y.g, x.h + y.h⟩

def round (x : State) (input : UInt32 × UInt32) : State :=
  let choice := (x.e &&& x.f) ^^^ (~~~x.e &&& x.g)
  let majority := (x.a &&& x.b) ^^^ (x.a &&& x.c) ^^^ (x.b &&& x.c)
  let mixed := rotate x.e 6 ^^^ rotate x.e 11 ^^^ rotate x.e 25
  let first := x.h + mixed + choice + input.1 + input.2
  let second := (rotate x.a 2 ^^^ rotate x.a 13 ^^^ rotate x.a 22) + majority
  ⟨first + second, x.a, x.b, x.c, x.d + first, x.e, x.f, x.g⟩

def small0 (word : UInt32) : UInt32 := rotate word 7 ^^^ rotate word 18 ^^^ (word >>> 3)
def small1 (word : UInt32) : UInt32 := rotate word 17 ^^^ rotate word 19 ^^^ (word >>> 10)

-- The schedule is kept with its newest word first.
def extend : Nat → List UInt32 → List UInt32
  | 0, schedule => schedule
  | count + 1, schedule =>
    let word := small1 (schedule.getD 1 0) + schedule.getD 6 0 + small0 (schedule.getD 14 0) +
      schedule.getD 15 0
    extend count (word :: schedule)

def compress (state : State) (block : List UInt32) : State :=
  state.add ((constants.zip (extend 48 block.reverse).reverse).foldl round state)

def compressAll (state : State) : Nat → List UInt32 → State
  | 0, _ => state
  | blocks + 1, words => compressAll (compress state (words.take 16)) blocks (words.drop 16)

def bigEndian (a b c d : UInt8) : UInt32 :=
  (a.toUInt32 <<< 24) ||| (b.toUInt32 <<< 16) ||| (c.toUInt32 <<< 8) ||| d.toUInt32

def toWords : List UInt8 → List UInt32
  | a :: b :: c :: d :: rest => bigEndian a b c d :: toWords rest
  | _ => []

def wordBytes (word : UInt32) : List UInt8 :=
  [(word >>> 24).toUInt8, (word >>> 16).toUInt8, (word >>> 8).toUInt8, word.toUInt8]

def lengthBytes (count : Nat) : List UInt8 :=
  [56, 48, 40, 32, 24, 16, 8, 0].map fun shift => UInt8.ofNat ((count * 8) >>> shift)

-- A one bit, zeros up to a multiple of 64 bytes, and the length at the end.
def pad (message : List UInt8) : List UInt8 :=
  message ++ 0x80 :: List.replicate ((119 - message.length % 64) % 64) 0 ++
    lengthBytes message.length

def State.words (x : State) : List UInt32 := [x.a, x.b, x.c, x.d, x.e, x.f, x.g, x.h]

def State.digest (x : State) : Digest := ⟨x.words.flatMap wordBytes, rfl⟩

end Sha256

def sha256 (message : List UInt8) : Digest :=
  let padded := Sha256.pad message
  (Sha256.compressAll Sha256.initial (padded.length / 64) (Sha256.toWords padded)).digest

end ParamStore

import ParamStore.Digest
import ParamStore.Proofs.Outcome

set_option autoImplicit false

namespace ParamStore
namespace Text

def hexDigits : Text := "0123456789abcdefABCDEF".toList

theorem hex_value_ascii (c : Char) (value : Nat) (found : hexValue? c = some value) : c.toNat < 128 := by
  have bound (last : Char) (upTo : c ≤ last) : c.toNat ≤ last.toNat := upTo
  rw [hexValue?] at found
  split at found
  · rename_i digit
    exact Nat.lt_of_le_of_lt (bound '9' (Char.isDigit_iff_toNat.mp digit).2) (by decide)
  · split at found
    · rename_i small
      exact Nat.lt_of_le_of_lt (bound 'f' small.2) (by decide)
    · split at found
      · rename_i capital
        exact Nat.lt_of_le_of_lt (bound 'F' capital.2) (by decide)
      · cases found

theorem hex_value_digit (c : Char) (value : Nat) (found : hexValue? c = some value) :
    c ∈ hexDigits ∧ value < 16 ∧ Nat.digitChar value = c.toLower := by
  have each : ∀ code < 128, ∀ n, hexValue? (Char.ofNat code) = some n →
      Char.ofNat code ∈ hexDigits ∧ n < 16 ∧ Nat.digitChar n = (Char.ofNat code).toLower := by
    decide +kernel
  have here := each c.toNat (hex_value_ascii c value found) value
  rw [Char.ofNat_toNat] at here
  exact here found

theorem hex_digit_value (c : Char) (digit : c ∈ hexDigits) : ∃ value, hexValue? c = some value := by
  have each : hexDigits.all (fun c => (hexValue? c).isSome) = true := by decide +kernel
  exact Option.isSome_iff_exists.mp (List.all_eq_true.mp each c digit)

theorem hex_char_value : ∀ value < 16,
    hexValue? (Nat.digitChar value) = some value ∧ Nat.digitChar value ≠ '+' := by
  decide +kernel

-- Whether characters can be bytes, two for each: digits, or a plus sign and a digit.
def HexPairs (text : Text) : Prop :=
  ∀ place c, text[place]? = some c → c ∈ hexDigits ∨ (c = '+' ∧ place % 2 = 0)

theorem hex_pairs_cons (high low : Char) (rest : Text) : HexPairs (high :: low :: rest) ↔
    (high ∈ hexDigits ∨ high = '+') ∧ low ∈ hexDigits ∧ HexPairs rest := by
  constructor
  · intro pairs
    refine ⟨(pairs 0 high rfl).imp_right And.left, ?_, fun place c found => ?_⟩
    · exact (pairs 1 low rfl).resolve_right fun ⟨_, even⟩ => absurd even (by decide)
    · have later := pairs (place + 2) c found
      rwa [Nat.add_mod_right] at later
  · rintro ⟨first, second, later⟩ place c found
    match place with
    | 0 =>
      cases found
      exact first.imp_right fun plus => ⟨plus, rfl⟩
    | 1 =>
      cases found
      exact .inl second
    | place + 2 =>
      rw [Nat.add_mod_right]
      exact later place c found

def plainHex (c : Char) : Char := if c = '+' then '0' else c.toLower

theorem plain_hex_digit (c : Char) (digit : c ∈ hexDigits) : plainHex c = c.toLower := by
  have unlisted : '+' ∉ hexDigits := by decide +kernel
  refine if_neg fun plus => ?_
  rw [plus] at digit
  exact unlisted digit

end Text

namespace Digest

open Text

theorem hex_byte_parts (high low : Nat) (highFits : high < 16) (lowFits : low < 16) :
    hexByte (UInt8.ofNat (16 * high + low)) = [Nat.digitChar high, Nat.digitChar low] := by
  have value : (UInt8.ofNat (16 * high + low)).toNat = 16 * high + low :=
    UInt8.toNat_ofNat_of_lt' (by simp only [UInt8.size]; omega)
  rw [hexByte, value]
  congr 3 <;> omega

theorem byte_iff (high low : Char) :
    (∃ byte, byte? high low = some byte) ↔ (high ∈ hexDigits ∨ high = '+') ∧ low ∈ hexDigits := by
  constructor
  · rintro ⟨byte, found⟩
    rw [byte?] at found
    split at found
    · cases found
    · rename_i ones second
      refine ⟨?_, (hex_value_digit low ones second).1⟩
      split at found
      · rename_i plus
        exact .inr plus
      · obtain ⟨sixteens, first, _⟩ := Option.map_eq_some_iff.mp found
        exact .inl (hex_value_digit high sixteens first).1
  · rintro ⟨first, second⟩
    obtain ⟨ones, lowValue⟩ := hex_digit_value low second
    rw [byte?, lowValue]
    by_cases plus : high = '+'
    · exact ⟨_, if_pos plus⟩
    · obtain ⟨sixteens, highValue⟩ := hex_digit_value high (first.resolve_right plus)
      exact ⟨_, by rw [highValue]; exact if_neg plus⟩

theorem byte_plain (high low : Char) (byte : UInt8) (found : byte? high low = some byte) :
    hexByte byte = [plainHex high, plainHex low] := by
  rw [byte?] at found
  split at found
  · cases found
  · rename_i ones second
    obtain ⟨lowDigit, lowFits, lowChar⟩ := hex_value_digit low ones second
    rw [plain_hex_digit low lowDigit, ← lowChar]
    split at found
    · rename_i plus
      cases found
      have parts := hex_byte_parts 0 ones (by decide) lowFits
      rw [Nat.mul_zero, Nat.zero_add] at parts
      rw [parts, plus]
      rfl
    · obtain ⟨sixteens, first, rfl⟩ := Option.map_eq_some_iff.mp found
      obtain ⟨highDigit, highFits, highChar⟩ := hex_value_digit high sixteens first
      rw [hex_byte_parts sixteens ones highFits lowFits, plain_hex_digit high highDigit, highChar]

theorem byte_hex (byte : UInt8) :
    byte? (Nat.digitChar (byte.toNat / 16)) (Nat.digitChar (byte.toNat % 16)) = some byte := by
  have bound := byte.toNat_lt
  obtain ⟨highValue, unsigned⟩ := hex_char_value (byte.toNat / 16) (by omega)
  obtain ⟨lowValue, _⟩ := hex_char_value (byte.toNat % 16) (by omega)
  rw [byte?, lowValue]
  simp only [unsigned, if_false, highValue, Option.map_some, Nat.div_add_mod, UInt8.ofNat_toNat]

theorem bytes_iff (text : Text) :
    (∃ bytes, bytes? text = some bytes) ↔ text.length % 2 = 0 ∧ HexPairs text := by
  fun_induction bytes? text with
  | case1 => simp [HexPairs]
  | case2 => simp
  | case3 high low rest unread =>
    rw [hex_pairs_cons]
    constructor
    · rintro ⟨_, ⟨⟩⟩
    · rintro ⟨_, first, second, _⟩
      obtain ⟨byte, read⟩ := (byte_iff high low).mpr ⟨first, second⟩
      cases unread.symm.trans read
  | case4 high low rest byte read ih =>
    obtain ⟨first, second⟩ := (byte_iff high low).mp ⟨byte, read⟩
    rw [hex_pairs_cons, List.length_cons, List.length_cons, Nat.add_assoc, Nat.add_mod_right]
    constructor
    · rintro ⟨bytes, found⟩
      obtain ⟨more, later, _⟩ := Option.map_eq_some_iff.mp found
      obtain ⟨even, pairs⟩ := ih.mp ⟨more, later⟩
      exact ⟨even, first, second, pairs⟩
    · rintro ⟨even, _, _, pairs⟩
      obtain ⟨more, later⟩ := ih.mpr ⟨even, pairs⟩
      exact ⟨byte :: more, by rw [later]; rfl⟩

theorem bytes_plain (text : Text) (bytes : List UInt8) (read : bytes? text = some bytes) :
    bytes.flatMap hexByte = text.map plainHex ∧ text.length = 2 * bytes.length := by
  fun_induction bytes? text generalizing bytes with
  | case1 =>
    cases read
    exact ⟨rfl, rfl⟩
  | case2 => cases read
  | case3 => cases read
  | case4 high low rest byte found ih =>
    obtain ⟨more, later, rfl⟩ := Option.map_eq_some_iff.mp read
    obtain ⟨plain, length⟩ := ih more later
    refine ⟨?_, ?_⟩
    · rw [List.flatMap_cons, plain, byte_plain high low byte found]
      rfl
    · simp only [List.length_cons, length]
      omega

theorem bytes_hex (bytes : List UInt8) : bytes? (bytes.flatMap hexByte) = some bytes := by
  induction bytes with
  | nil => rfl
  | cons byte rest ih =>
    rw [List.flatMap_cons, hexByte, List.cons_append, List.cons_append, List.nil_append, bytes?,
      byte_hex byte, ih]
    rfl

theorem of_hex_iff (text : Text) :
    (∃ digest, ofHex? text = some digest) ↔ text.length = 64 ∧ HexPairs text := by
  rw [ofHex?]
  constructor
  · rintro ⟨digest, found⟩
    split at found
    · cases found
    · rename_i bytes read
      split at found
      · rename_i size
        obtain ⟨_, length⟩ := bytes_plain text bytes read
        rw [size] at length
        exact ⟨length, ((bytes_iff text).mp ⟨bytes, read⟩).2⟩
      · cases found
  · rintro ⟨length, pairs⟩
    obtain ⟨bytes, read⟩ := (bytes_iff text).mpr ⟨by rw [length], pairs⟩
    obtain ⟨_, double⟩ := bytes_plain text bytes read
    have size : bytes.length = 32 := by omega
    exact ⟨⟨bytes, size⟩, by rw [read]; exact dif_pos size⟩

theorem of_hex_plain (text : Text) (digest : Digest) (found : ofHex? text = some digest) :
    digest.hex = text.map plainHex := by
  rw [ofHex?] at found
  split at found
  · cases found
  · rename_i bytes read
    split at found
    · cases found
      exact (bytes_plain text bytes read).1
    · cases found

theorem of_hex_hex (digest : Digest) : ofHex? digest.hex = some digest := by
  rw [ofHex?, hex, bytes_hex]
  exact dif_pos digest.size

theorem read_ok (text : Text) (digest : Digest) :
    read text = .ok digest ↔ ofHex? text = some digest := by
  rw [read]
  cases ofHex? text <;> simp

theorem hex_pairs_plain (text : Text) (unsigned : '+' ∉ text) :
    HexPairs text ↔ ∀ c ∈ text, c ∈ hexDigits := by
  constructor
  · intro pairs c member
    obtain ⟨place, found⟩ := List.mem_iff_getElem?.mp member
    exact (pairs place c found).resolve_right fun ⟨plus, _⟩ => unsigned (plus ▸ member)
  · exact fun each place c found => .inl (each c (List.mem_of_getElem? found))

theorem read_pairs (text : Text) :
    ((∃ digest, read text = .ok digest) ↔ text.length = 64 ∧ HexPairs text) ∧
    (∀ digest, read text = .ok digest → digest.hex = text.map plainHex) ∧
    ((∀ digest, read text ≠ .ok digest) →
      read text = .error (.typeMismatch (.malformed .identifier text))) ∧
    ('+' ∉ text →
      ((∃ digest, read text = .ok digest) ↔ text.length = 64 ∧ ∀ c ∈ text, c ∈ hexDigits) ∧
      ∀ digest, read text = .ok digest → digest.hex = text.map Char.toLower) ∧
    ∀ digest : Digest, read digest.hex = .ok digest := by
  have accepted : (∃ digest, read text = .ok digest) ↔ text.length = 64 ∧ HexPairs text := by
    simp only [read_ok, of_hex_iff]
  have plain (digest : Digest) (done : read text = .ok digest) : digest.hex = text.map plainHex :=
    of_hex_plain text digest ((read_ok text digest).mp done)
  refine ⟨accepted, plain, fun refused => ?_, fun unsigned => ⟨?_, fun digest done => ?_⟩,
    fun digest => (read_ok _ digest).mpr (of_hex_hex digest)⟩
  · rw [read]
    cases found : ofHex? text with
    | none => rfl
    | some digest => exact absurd ((read_ok text digest).mpr found) (refused digest)
  · rw [accepted, hex_pairs_plain text unsigned]
  · have digits := (hex_pairs_plain text unsigned).mp (accepted.mp ⟨digest, done⟩).2
    rw [plain digest done]
    exact List.map_congr_left fun c member => plain_hex_digit c (digits c member)

def mixedCase : Text := "+fAb".toList ++ List.replicate 60 'C'

theorem read_pairs_mixed :
    ∃ digest, read mixedCase = .ok digest ∧ digest.hex = "0fab".toList ++ List.replicate 60 'c' ∧
      read digest.hex = .ok digest := by
  have length : mixedCase.length = 64 := by decide +kernel
  have pairs : HexPairs mixedCase := by
    have each : ∀ place < 64, mixedCase[place]?.all fun c =>
        decide (c ∈ hexDigits ∨ (c = '+' ∧ place % 2 = 0)) := by decide +kernel
    intro place c found
    have here := each place (length ▸ (List.getElem?_eq_some_iff.mp found).1)
    rw [found] at here
    exact of_decide_eq_true here
  obtain ⟨accepted, plain, _, _, back⟩ := read_pairs mixedCase
  obtain ⟨digest, done⟩ := accepted.mpr ⟨length, pairs⟩
  exact ⟨digest, done, (plain digest done).trans (by decide +kernel), back digest⟩

def signedZeros : Text := (List.replicate 32 ['+', '0']).flatten

theorem signed_zeros_read :
    ¬ ((∃ digest, read signedZeros = .ok digest) ↔
      signedZeros.length = 64 ∧ ∀ c ∈ signedZeros, c ∈ hexDigits) := by
  have zeros : read signedZeros = .ok ⟨List.replicate 32 0, by decide⟩ := by decide +kernel
  have sign : '+' ∈ signedZeros := by decide +kernel
  have unlisted : '+' ∉ hexDigits := by decide +kernel
  exact fun same => unlisted ((same.mp ⟨_, zeros⟩).2 '+' sign)

end Digest
end ParamStore

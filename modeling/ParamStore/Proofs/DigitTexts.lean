import Mathlib.Tactic.Ring
import ParamStore.Number.Written

set_option autoImplicit false

namespace ParamStore

theorem run_ends {p : Char → Bool} (run rest : Text) (all : ∀ c ∈ run, p c = true)
    (stops : ∀ c, rest.head? = some c → p c = false) :
    (run ++ rest).takeWhile p = run ∧ (run ++ rest).dropWhile p = rest := by
  have here : rest.takeWhile p = [] ∧ rest.dropWhile p = rest := by
    cases rest with
    | nil => exact ⟨rfl, rfl⟩
    | cons c tail =>
      have outside := stops c rfl
      simp [outside]
  rw [List.takeWhile_append_of_pos all, List.dropWhile_append_of_pos all, here.1, here.2]
  exact ⟨List.append_nil run, rfl⟩

namespace Text

theorem all_digits_iff (text : Text) : text.allDigits = true ↔ ∀ c ∈ text, c.isDigit = true :=
  List.all_eq_true

theorem all_digits_append (front back : Text) :
    allDigits (front ++ back) = true ↔ front.allDigits = true ∧ back.allDigits = true := by
  unfold allDigits
  rw [List.all_append, Bool.and_eq_true]

theorem all_digits_replicate (count : Nat) : allDigits (List.replicate count '0') = true := by
  rw [all_digits_iff]
  intro c member
  rw [(List.mem_replicate.mp member).2]
  rfl

theorem of_nat_digits (n : Nat) : (ofNat n).allDigits = true :=
  (all_digits_iff _).mpr fun _ member =>
    Nat.isDigit_of_mem_toDigits (by decide) (by decide) member

theorem of_nat_ne_nil (n : Nat) : ofNat n ≠ [] := Nat.toDigits_ne_nil

theorem to_nat_of_nat (n : Nat) : toNat (ofNat n) = n := Nat.ofDigitChars_ten_toDigits

theorem to_nat_zeros (front : Text) (count : Nat) :
    toNat (front ++ List.replicate count '0') = toNat front * 10 ^ count := by
  unfold toNat
  rw [Nat.ofDigitChars_append, Nat.ofDigitChars_replicate_zero, Nat.mul_comm]

theorem digit_value (c : Char) (digit : c.isDigit = true) : c.toNat - '0'.toNat ≤ 9 := by
  have bounds := Char.isDigit_iff_toNat.mp digit
  have top : '9'.toNat = '0'.toNat + 9 := rfl
  omega

theorem to_nat_cons (first : Char) (rest : Text) :
    toNat (first :: rest) = (first.toNat - '0'.toNat) * 10 ^ rest.length + toNat rest := by
  unfold toNat
  rw [Nat.ofDigitChars_cons, Nat.ofDigitChars_eq_ofDigitChars_zero, Nat.mul_zero, Nat.zero_add,
    Nat.mul_comm]

theorem to_nat_lt (text : Text) (digits : text.allDigits = true) :
    toNat text < 10 ^ text.length := by
  induction text with
  | nil => exact Nat.zero_lt_one
  | cons first rest ih =>
    have each := (all_digits_iff _).mp digits
    have below := ih ((all_digits_iff rest).mpr fun c member => each c (List.mem_cons_of_mem _ member))
    have first9 := digit_value first (each first (List.mem_cons_self ..))
    have scaled := Nat.mul_le_mul_right (10 ^ rest.length) first9
    rw [to_nat_cons, List.length_cons, Nat.pow_succ]
    omega

theorem le_to_nat (first : Char) (rest : Text) (digit : first.isDigit = true)
    (nonzero : first ≠ '0') : 10 ^ rest.length ≤ toNat (first :: rest) := by
  have bounds := Char.isDigit_iff_toNat.mp digit
  have positive : first.toNat ≠ '0'.toNat := fun same => nonzero (Char.toNat_inj.mp same)
  have scaled := Nat.mul_le_mul_right (10 ^ rest.length)
    (show 1 ≤ first.toNat - '0'.toNat by omega)
  rw [to_nat_cons]
  omega

theorem of_nat_head (n : Nat) (positive : 0 < n) (first : Char) (rest : Text)
    (same : ofNat n = first :: rest) : first ≠ '0' := by
  intro zero
  have value := to_nat_of_nat n
  have digits := of_nat_digits n
  rw [same, zero, ← List.singleton_append, all_digits_append] at digits
  rw [same, zero, to_nat_cons, Nat.sub_self, Nat.zero_mul, Nat.zero_add] at value
  have below := to_nat_lt rest digits.2
  rw [value] at below
  cases rest with
  | nil => simp at below; omega
  | cons next tail =>
    have short := (Nat.length_toDigits_le_iff (by decide) (Nat.succ_pos _)).mpr below
    rw [ofNat] at same
    rw [same] at short
    simp at short

end Text

namespace Digits

theorem drop_zeros_append (digits : Text) :
    ∃ count, digits = dropZeros digits ++ List.replicate count '0' := by
  have split := congrArg List.reverse
    (List.takeWhile_append_dropWhile (p := (· == '0')) (l := digits.reverse))
  rw [List.reverse_append, List.reverse_reverse] at split
  have zeros : digits.reverse.takeWhile (· == '0') =
      List.replicate (digits.reverse.takeWhile (· == '0')).length '0' := by
    refine List.eq_replicate_of_mem fun c member => ?_
    have run := List.all_takeWhile (p := (· == '0')) (l := digits.reverse)
    simpa using List.all_eq_true.mp run c member
  refine ⟨(digits.reverse.takeWhile (· == '0')).length, ?_⟩
  rw [← List.reverse_replicate, ← zeros]
  exact split.symm

end Digits
end ParamStore

import ParamStore.Proofs.DecimalRound

set_option autoImplicit false

namespace ParamStore
namespace Digits

structure Proper (number : Digits) : Prop where
  all : number.digits.allDigits = true
  head : ∃ first rest, number.digits = first :: rest ∧ first ≠ '0'

-- A text in which these digits are read, the point at its place, perhaps with zeros behind them.
def Shown (number : Digits) (text : Text) : Prop :=
  ∃ decimal zeros, Decimal.Written text decimal ∧
    decimal.significant = number.digits ++ List.replicate zeros '0' ∧ decimal.point = number.point

theorem drop_leading (number : Digits) (proper : number.Proper) (zeros : Nat) (tail : Text) :
    (List.replicate zeros '0' ++ (number.digits ++ tail)).dropWhile (· == '0') =
      number.digits ++ tail := by
  obtain ⟨first, rest, same, nonzero⟩ := proper.head
  rw [List.dropWhile_append_of_pos (by simp)]
  rw [same, List.cons_append, List.dropWhile_cons_of_neg (by simpa using nonzero)]

theorem significant_point (number : Digits) (proper : number.Proper) (decimal : Decimal)
    (leading trailing : Nat) (digits : decimal.whole ++ decimal.fraction =
      List.replicate leading '0' ++ (number.digits ++ List.replicate trailing '0'))
    (place : (decimal.whole.length : Int) + decimal.exponent - leading = number.point) :
    decimal.significant = number.digits ++ List.replicate trailing '0' ∧
      decimal.point = number.point := by
  have kept : decimal.significant = number.digits ++ List.replicate trailing '0' := by
    rw [Decimal.significant]
    rw [digits, drop_leading number proper]
  have dropped : (decimal.whole ++ decimal.fraction).length - decimal.significant.length =
      leading := by
    rw [kept, digits, List.length_append, List.length_replicate]
    omega
  refine ⟨kept, ?_⟩
  rw [Decimal.point]
  rw [dropped, place]

theorem digits_ne_nil (number : Digits) (proper : number.Proper) : number.digits ≠ [] := by
  obtain ⟨first, rest, same, _⟩ := proper.head
  rw [same]
  exact List.cons_ne_nil first rest

theorem positional_shown (number : Digits) (proper : number.Proper) :
    number.Shown number.positional := by
  have nonempty := digits_ne_nil number proper
  rw [positional]
  by_cases small : number.point ≤ 0
  · -- Only zeros stand in front of the point, and some may follow it.
    rw [if_pos small]
    have all : Text.allDigits (zeros (-number.point).toNat ++ number.digits) = true :=
      (Text.all_digits_append _ _).mpr ⟨Text.all_digits_replicate _, proper.all⟩
    have some : zeros (-number.point).toNat ++ number.digits ≠ [] := by
      simp [nonempty]
    obtain ⟨kept, place⟩ := significant_point number proper
      ⟨['0'], zeros (-number.point).toNat ++ number.digits, 0⟩ ((-number.point).toNat + 1) 0
      (by simp [zeros, List.replicate_succ]) (by simp; omega)
    refine ⟨_, 0, ⟨by simp, rfl, _, [], ?_, .some _ some all, .none⟩, kept, place⟩
    simp
  · rw [if_neg small]
    by_cases whole : number.digits.length ≤ number.point.toNat
    · rw [if_pos whole]
      have all : Text.allDigits
          (number.digits ++ zeros (number.point.toNat - number.digits.length)) = true :=
        (Text.all_digits_append _ _).mpr ⟨proper.all, Text.all_digits_replicate _⟩
      obtain ⟨kept, place⟩ := significant_point number proper
        ⟨number.digits ++ zeros (number.point.toNat - number.digits.length), [], 0⟩ 0
        (number.point.toNat - number.digits.length) (by simp [zeros])
        (by simp [zeros]; omega)
      refine ⟨_, _, ⟨by simp [nonempty], all, [], [], ?_, .none, .none⟩, kept, place⟩
      simp
    · rw [if_neg whole]
      have split := (Text.all_digits_append (number.digits.take number.point.toNat)
        (number.digits.drop number.point.toNat)).mp
          (by rw [List.take_append_drop]; exact proper.all)
      have length : (number.digits.take number.point.toNat).length = number.point.toNat := by
        rw [List.length_take]
        omega
      have front : number.digits.take number.point.toNat ≠ [] := by
        intro empty
        rw [empty, List.length_nil] at length
        omega
      have back : number.digits.drop number.point.toNat ≠ [] := by
        intro empty
        exact whole (List.drop_eq_nil_iff.mp empty)
      obtain ⟨kept, place⟩ := significant_point number proper
        ⟨number.digits.take number.point.toNat, number.digits.drop number.point.toNat, 0⟩ 0 0
        (by simp) (by simp only [length]; omega)
      refine ⟨_, 0, ⟨front, split.1, _, [], ?_, .some _ back split.2, .none⟩, kept, place⟩
      simp

theorem pointed_written (number : Digits) (proper : number.Proper) (power : Text)
    (written : Decimal.PowerPart power (number.point - 1)) :
    Decimal.Written (number.digits.take 1 ++
      ((if number.digits.drop 1 = [] then [] else '.' :: number.digits.drop 1) ++ power))
      ⟨number.digits.take 1, number.digits.drop 1, number.point - 1⟩ := by
  obtain ⟨first, rest, same, nonzero⟩ := proper.head
  have all := proper.all
  rw [same, ← List.singleton_append, Text.all_digits_append] at all
  simp only [same, List.take_succ_cons, List.take_zero, List.drop_succ_cons, List.drop_zero]
  refine ⟨by simp, all.1, _, power, rfl, ?_, written⟩
  by_cases last : rest = []
  · simp only [last, if_true]
    exact .none
  · simp only [last, if_false]
    exact .some rest last all.2

theorem pointed_shown (number : Digits) (proper : number.Proper) (power : Text)
    (written : Decimal.PowerPart power (number.point - 1)) :
    number.Shown (number.digits.take 1 ++
      ((if number.digits.drop 1 = [] then [] else '.' :: number.digits.drop 1) ++ power)) := by
  obtain ⟨first, rest, same, nonzero⟩ := proper.head
  obtain ⟨kept, place⟩ := significant_point number proper
    ⟨number.digits.take 1, number.digits.drop 1, number.point - 1⟩ 0 0 (by simp [same])
    (by simp [same])
  exact ⟨_, 0, pointed_written number proper power written, kept, place⟩

theorem of_int_power (power : Int) : Decimal.PowerPart ('e' :: Text.ofInt power) power := by
  rw [Text.ofInt]
  by_cases negative : power < 0
  · rw [if_pos negative]
    refine .some ['-'] (Text.ofNat power.natAbs) power (.inr (.inr rfl)) (Text.of_nat_ne_nil _)
      (Text.of_nat_digits _) ?_
    simp only [Text.to_nat_of_nat, if_true]
    omega
  · rw [if_neg negative]
    refine .some [] (Text.ofNat power.natAbs) power (.inl rfl) (Text.of_nat_ne_nil _)
      (Text.of_nat_digits _) ?_
    simp only [Text.to_nat_of_nat, List.nil_eq, List.cons_ne_nil, if_false]
    omega

theorem scientific_shown (number : Digits) (proper : number.Proper) :
    number.Shown (number.scientific Text.ofInt) := by
  have shown := pointed_shown number proper _ (of_int_power (number.point - 1))
  simpa only [scientific, List.append_assoc] using shown

theorem exponent_text_power (power : Nat) : Decimal.PowerPart ('e' :: exponentText power) power := by
  rw [exponentText]
  by_cases short : power < 10
  · rw [if_pos short]
    refine .some ['+'] ('0' :: Text.ofNat power) power (.inr (.inl rfl)) (List.cons_ne_nil _ _) ?_ ?_
    · exact (Text.all_digits_append ['0'] _).mpr ⟨rfl, Text.of_nat_digits power⟩
    · simp [Text.to_nat_cons, Text.to_nat_of_nat]
  · rw [if_neg short]
    refine .some ['+'] (Text.ofNat power) power (.inr (.inl rfl)) (Text.of_nat_ne_nil _)
      (Text.of_nat_digits _) ?_
    simp [Text.to_nat_of_nat]

theorem integer_text_written (negative : Bool) (digits : Text) (all : digits.allDigits = true)
    (first : Char) (rest : Text) (same : digits.dropWhile (· == '0') = first :: rest) :
    ∃ body decimal, integerText negative digits = (if negative then '-' else '+') :: body ∧
      Proper ⟨first :: rest, rest.length + 1⟩ ∧ Decimal.Written body decimal ∧
      decimal.whole ++ decimal.fraction = first :: rest ∧
      decimal.whole.length ≤ mostPlainDigits ∧
      (decimal.whole.length : Int) + decimal.exponent = rest.length + 1 := by
  have head := List.head?_dropWhile_not (· == '0') digits
  rw [same] at head
  have nonzero : first ≠ '0' := by simpa using head
  have kept : Text.allDigits (first :: rest) = true := by
    rw [Text.all_digits_iff] at all ⊢
    intro c member
    rw [← same] at member
    exact all c ((List.dropWhile_sublist _).subset member)
  have proper : Proper ⟨first :: rest, rest.length + 1⟩ := ⟨kept, first, rest, rfl, nonzero⟩
  rw [integerText]
  rw [same]
  by_cases long : mostPlainDigits ≤ rest.length
  · have some : rest ≠ [] := by
      rintro rfl
      cases long
    have written := pointed_written ⟨first :: rest, rest.length + 1⟩ proper _
      (by simpa using exponent_text_power rest.length)
    refine ⟨first :: '.' :: rest ++ 'e' :: exponentText rest.length,
      ⟨[first], rest, rest.length⟩, ?_, proper, by simpa [some] using written, rfl, ?_, ?_⟩
    · simp only [long, if_true]
      cases negative <;> rfl
    · exact Nat.le_add_left 1 5
    · exact Int.add_comm 1 _
  · refine ⟨first :: rest, ⟨first :: rest, [], 0⟩, ?_, proper,
      ⟨by simp, kept, [], [], by simp, .none, .none⟩, by simp, ?_, by simp⟩
    · simp only [long, if_false]
    · rw [List.length_cons]
      omega

theorem integer_text_shown (negative : Bool) (digits : Text) (all : digits.allDigits = true)
    (first : Char) (rest : Text) (same : digits.dropWhile (· == '0') = first :: rest) :
    ∃ body, integerText negative digits = (if negative then '-' else '+') :: body ∧
      Proper ⟨first :: rest, rest.length + 1⟩ ∧ Shown ⟨first :: rest, rest.length + 1⟩ body := by
  obtain ⟨body, decimal, text, proper, written, whole, _, place⟩ :=
    integer_text_written negative digits all first rest same
  obtain ⟨kept, point⟩ := significant_point ⟨first :: rest, rest.length + 1⟩ proper decimal 0 0
    (by simpa using whole) (by simpa using place)
  exact ⟨body, text, proper, decimal, 0, written, kept, point⟩

end Digits
end ParamStore

import ParamStore.Proofs.TokenRuns

set_option autoImplicit false

namespace ParamStore

def Segment.Valid : Segment → Prop
  | key name => name.isKey = true
  | index place => place < Path.indexLimit

namespace Text

theorem trim_plain (text : Text) (plain : ∀ c ∈ text, isBlank c = false) : text.trim = text := by
  have keep : ∀ run : Text, (∀ c ∈ run, isBlank c = false) → run.dropWhile isBlank = run := by
    intro run outside
    cases run with
    | nil => rfl
    | cons first rest => exact List.dropWhile_cons_of_neg (by simp [outside first])
  rw [trim, trimLeft, keep text plain, trimRight, keep text.reverse, List.reverse_reverse]
  intro c member
  exact plain c (List.mem_reverse.mp member)

theorem digit_no_blank (c : Char) (digit : c.isDigit = true) : isBlank c = false := by
  have bounds := Char.isDigit_iff_toNat.mp digit
  have zero : '0'.toNat = 48 := rfl
  have nine : '9'.toNat = 57 := rfl
  simp only [isBlank, blankRanges, List.any_cons, List.any_nil, Bool.or_eq_false_iff,
    Bool.and_eq_false_iff, decide_eq_false_iff_not, Nat.not_le]
  refine ⟨?_, ?_, ?_, ?_, ?_, ?_, ?_, ?_, ?_, ?_, trivial⟩ <;> omega

theorem key_names (key : Text) (valid : key.isKey = true) : ∀ c ∈ key, isNameChar c = true := by
  cases key with
  | nil => cases valid
  | cons first rest =>
    simp only [isKey, Bool.and_eq_true] at valid
    intro c member
    rcases List.mem_cons.mp member with rfl | later
    · exact Token.start_name c valid.1
    · exact List.all_eq_true.mp valid.2 c later

end Text

namespace Path

theorem name_no_end (c : Char) (name : Text.isNameChar c = true) : isKeyEnd c = false := by
  cases ends : isKeyEnd c with
  | false => rfl
  | true =>
    simp only [isKeyEnd, Bool.or_eq_true, beq_iff_eq] at ends
    rcases ends with rfl | rfl <;> cases name

theorem key_run (key : Text) (valid : key.isKey = true) (rest : Text)
    (ends : ∀ c, rest.head? = some c → isKeyEnd c = true) :
    keyText (key ++ rest) = key ∧ afterKey (key ++ rest) = rest := by
  apply run_ends
  · intro c member
    rw [name_no_end c (Text.key_names key valid c member)]
    rfl
  · intro c head
    rw [ends c head]
    rfl

theorem steps_head (segments : List Segment) (c : Char)
    (head : (segments.flatMap Segment.step).head? = some c) : isKeyEnd c = true := by
  cases segments with
  | nil => cases head
  | cons segment rest => cases segment <;> cases head <;> rfl

theorem key_split (key : Text) (valid : key.isKey = true) (segments : List Segment) :
    keyText (key ++ segments.flatMap Segment.step) = key ∧
      afterKey (key ++ segments.flatMap Segment.step) = segments.flatMap Segment.step :=
  key_run key valid _ (steps_head segments)

theorem index_read (place : Nat) (bound : place < indexLimit) :
    index? (Text.ofNat place) = some place := by
  have each := (Text.all_digits_iff _).mp (Text.of_nat_digits place)
  have trimmed := Text.trim_plain _ fun c member => Text.digit_no_blank c (each c member)
  have unsigned : (Text.ofNat place).head? ≠ some '+' := by
    intro head
    cases each '+' (List.mem_of_mem_head? head)
  simp only [index?, trimmed, unsigned, if_false, Text.to_nat_of_nat]
  exact if_pos ⟨Text.of_nat_ne_nil place, Text.of_nat_digits place, bound⟩

theorem bracket_run (inside rest : Text) (opened : ']' ∉ inside) :
    indexText (inside ++ ']' :: rest) = inside ∧ afterBracket (inside ++ ']' :: rest) = rest := by
  have different : ∀ c ∈ inside, (c != ']') = true := by
    intro c member
    rw [bne_iff_ne]
    rintro rfl
    exact opened member
  have closed : ∀ c, (']' :: rest).head? = some c → (c != ']') = false := by
    rintro c ⟨⟩
    rfl
  obtain ⟨front, back⟩ := run_ends _ _ different closed
  rw [indexText, afterBracket, front, back]
  exact ⟨rfl, rfl⟩

theorem bracket_split (place : Nat) (rest : Text) :
    indexText (Text.ofNat place ++ ']' :: rest) = Text.ofNat place ∧
      afterBracket (Text.ofNat place ++ ']' :: rest) = rest := by
  refine bracket_run _ rest fun member => ?_
  cases (Text.all_digits_iff _).mp (Text.of_nat_digits place) _ member

theorem steps_read (segments : List Segment) (valid : ∀ segment ∈ segments, segment.Valid) :
    steps? (segments.flatMap Segment.step) = .ok segments := by
  induction segments with
  | nil => rw [List.flatMap_nil, steps?]
  | cons segment rest ih =>
    have later := ih fun other member => valid other (List.mem_cons_of_mem _ member)
    rw [List.flatMap_cons]
    cases segment with
    | key name =>
      have here : name.isKey = true := valid _ (List.mem_cons_self ..)
      have nonempty : name ++ rest.flatMap Segment.step ≠ [] := by
        intro same
        rw [(List.append_eq_nil_iff.mp same).1] at here
        cases here
      obtain ⟨front, back⟩ := key_split name here rest
      rw [Segment.step, List.cons_append, steps?, if_neg nonempty, front, if_pos here, back, later]
      rfl
    | index place =>
      have here : place < indexLimit := valid _ (List.mem_cons_self ..)
      obtain ⟨front, back⟩ := bracket_split place (rest.flatMap Segment.step)
      have text : Segment.step (.index place) ++ rest.flatMap Segment.step =
          '[' :: (Text.ofNat place ++ ']' :: rest.flatMap Segment.step) := by
        simp [Segment.step]
      rw [text, steps?, if_pos (by simp), front, index_read place here]
      simp only [back, later]
      rfl

theorem read_text (path : Path) (root : path.root.isKey = true)
    (valid : ∀ segment ∈ path.rest, segment.Valid) : read path.text = .ok path := by
  have nonempty : path.text ≠ [] := by
    intro same
    rw [(List.append_eq_nil_iff.mp same).1] at root
    cases root
  obtain ⟨front, back⟩ := key_split path.root root path.rest
  rw [read, ofText?, if_neg nonempty, text, front, if_pos root, back, steps_read path.rest valid]
  rfl

theorem index_bound (text : Text) (place : Nat) (read : index? text = some place) :
    place < indexLimit := by
  simp only [index?, Option.ite_none_right_eq_some, Option.some.injEq] at read
  rw [← read.2]
  exact read.1.2.2

theorem steps_valid (text : Text) (segments : List Segment) (read : steps? text = .ok segments) :
    ∀ segment ∈ segments, segment.Valid := by
  fun_induction steps? text generalizing segments with
  | case1 =>
    cases read
    simp
  | case3 after nonempty valid ih =>
    obtain ⟨rest, later, rfl⟩ := (Outcome.map_ok _ _ _).mp read
    exact List.forall_mem_cons.mpr ⟨valid, ih rest later⟩
  | case6 after closed place numbered ih =>
    obtain ⟨rest, later, rfl⟩ := (Outcome.map_ok _ _ _).mp read
    exact List.forall_mem_cons.mpr ⟨index_bound _ place numbered, ih rest later⟩
  | _ => cases read

theorem read_valid (text : Text) (path : Path) (done : read text = .ok path) :
    ∀ segment ∈ path.segments, segment.Valid := by
  rw [read] at done
  split at done
  · rename_i parsed
    cases done
    rw [ofText?] at parsed
    split at parsed
    · cases parsed
    · split at parsed
      · rename_i key
        obtain ⟨rest, later, rfl⟩ := (Outcome.map_ok _ _ _).mp parsed
        exact List.forall_mem_cons.mpr ⟨key, steps_valid _ rest later⟩
      · cases parsed
  · cases done

end Path
end ParamStore

import ParamStore.Proofs.PathTexts

set_option autoImplicit false

namespace ParamStore
namespace Text

theorem trim_spells (text : Text) : ∃ before after, text = before ++ (text.trim ++ after) ∧
    (∀ c ∈ before, isBlank c = true) ∧ ∀ c ∈ after, isBlank c = true := by
  have blanks (run : Text) : ∀ c ∈ run.takeWhile isBlank, isBlank c = true :=
    List.all_eq_true.mp List.all_takeWhile
  refine ⟨text.takeWhile isBlank, (text.trimLeft.reverse.takeWhile isBlank).reverse, ?_, blanks _, ?_⟩
  · have left : text.trimLeft = text.trim ++ (text.trimLeft.reverse.takeWhile isBlank).reverse := by
      rw [trim, trimRight, ← List.reverse_append, List.takeWhile_append_dropWhile, List.reverse_reverse]
    rw [← left]
    exact List.takeWhile_append_dropWhile.symm
  · intro c member
    exact blanks _ c (List.mem_reverse.mp member)

theorem trim_around (before body after : Text) (blankBefore : ∀ c ∈ before, isBlank c = true)
    (blankAfter : ∀ c ∈ after, isBlank c = true) (nonempty : body ≠ [])
    (plain : ∀ c ∈ body, isBlank c = false) : trim (before ++ (body ++ after)) = body := by
  have left : trimLeft (before ++ (body ++ after)) = body ++ after := by
    refine (run_ends before _ blankBefore fun c head => ?_).2
    rw [List.head?_append_of_ne_nil _ nonempty] at head
    exact plain c (List.mem_of_mem_head? head)
  have right : List.dropWhile isBlank (after.reverse ++ body.reverse) = body.reverse := by
    refine (run_ends after.reverse body.reverse ?_ fun c head => ?_).2
    · exact fun c member => blankAfter c (List.mem_reverse.mp member)
    · exact plain c (List.mem_reverse.mp (List.mem_of_mem_head? head))
  rw [trim, left, trimRight, List.reverse_append, right, List.reverse_reverse]

end Text

namespace Path

inductive IndexSpelled : Text → Nat → Prop where
  | digits (before sign digits after : Text) (blankBefore : ∀ c ∈ before, Text.isBlank c = true)
      (signed : sign = [] ∨ sign = ['+']) (nonempty : digits ≠ []) (all : digits.allDigits = true)
      (bound : digits.toNat < indexLimit) (blankAfter : ∀ c ∈ after, Text.isBlank c = true) :
      IndexSpelled (before ++ (sign ++ digits ++ after)) digits.toNat

inductive StepsSpelled : Text → List Segment → Prop where
  | nil : StepsSpelled [] []
  | key (name rest : Text) (segments : List Segment) (valid : name.isKey = true)
      (later : StepsSpelled rest segments) :
      StepsSpelled ('.' :: (name ++ rest)) (.key name :: segments)
  | index (inside rest : Text) (place : Nat) (segments : List Segment)
      (spelled : IndexSpelled inside place) (later : StepsSpelled rest segments) :
      StepsSpelled ('[' :: (inside ++ ']' :: rest)) (.index place :: segments)

def Spelled (text : Text) (path : Path) : Prop :=
  path.root.isKey = true ∧ ∃ behind, text = path.root ++ behind ∧ StepsSpelled behind path.rest

theorem index_body (sign digits : Text) (signed : sign = [] ∨ sign = ['+'])
    (all : digits.allDigits = true) :
    ∀ c ∈ sign ++ digits, Text.isBlank c = false ∧ c ≠ ']' := by
  intro c member
  rcases List.mem_append.mp member with first | later
  · rcases signed with rfl | rfl
    · cases first
    · rw [List.mem_singleton.mp first]
      decide
  · have digit := (Text.all_digits_iff _).mp all c later
    refine ⟨Text.digit_no_blank c digit, ?_⟩
    rintro rfl
    cases digit

theorem index_spelled_iff (text : Text) (place : Nat) :
    index? text = some place ↔ IndexSpelled text place := by
  constructor
  · intro read
    obtain ⟨before, after, join, blankBefore, blankAfter⟩ := text.trim_spells
    simp only [index?, Option.ite_none_right_eq_some, Option.some.injEq] at read
    generalize text.trim = body at join read
    subst join
    split at read
    · rename_i plus
      obtain ⟨tail, rfl⟩ := List.head?_eq_some_iff.mp plus
      obtain ⟨⟨nonempty, all, bound⟩, rfl⟩ := read
      exact .digits before ['+'] tail after blankBefore (.inr rfl) nonempty all bound blankAfter
    · obtain ⟨⟨nonempty, all, bound⟩, rfl⟩ := read
      exact .digits before [] body after blankBefore (.inl rfl) nonempty all bound blankAfter
  · rintro ⟨before, sign, digits, after, blankBefore, signed, nonempty, all, bound, blankAfter⟩
    have body := index_body sign digits signed all
    have trimmed := Text.trim_around before (sign ++ digits) after blankBefore blankAfter
      (by simp [nonempty]) fun c member => (body c member).1
    have unsigned : (if (sign ++ digits).head? = some '+' then (sign ++ digits).tail
        else sign ++ digits) = digits := by
      rcases signed with rfl | rfl
      · refine if_neg fun plus => ?_
        cases (Text.all_digits_iff _).mp all '+' (List.mem_of_mem_head? plus)
      · rfl
    simp only [index?, trimmed, unsigned]
    exact if_pos ⟨nonempty, all, bound⟩

theorem index_spelled_open (text : Text) (place : Nat) (spelled : IndexSpelled text place) :
    ']' ∉ text := by
  obtain ⟨before, sign, digits, after, blankBefore, signed, _, all, _, blankAfter⟩ := spelled
  have visible : Text.isBlank ']' = false := by decide
  intro member
  rcases List.mem_append.mp member with front | member
  · cases visible.symm.trans (blankBefore _ front)
  · rcases List.mem_append.mp member with body | back
    · exact (index_body sign digits signed all _ body).2 rfl
    · cases visible.symm.trans (blankAfter _ back)

theorem bracket_join (after : Text) (closed : ']' ∈ after) :
    after = indexText after ++ ']' :: afterBracket after := by
  have join : indexText after ++ after.dropWhile (· != ']') = after := List.takeWhile_append_dropWhile
  have nonempty : after.dropWhile (· != ']') ≠ [] := by
    intro none
    rw [none, List.append_nil] at join
    rw [← join] at closed
    have inside := List.all_eq_true.mp (List.all_takeWhile (p := (· != ']')) (l := after)) _ closed
    cases inside
  obtain ⟨first, rest, split⟩ := List.exists_cons_of_ne_nil nonempty
  have head := List.head?_dropWhile_not (· != ']') after
  rw [split] at head
  have bracket : first = ']' := by simpa using head
  rw [afterBracket, split, List.tail_cons, ← bracket, ← split, join]

theorem steps_spelled_head (text : Text) (segments : List Segment) (spelled : StepsSpelled text segments)
    (c : Char) (head : text.head? = some c) : isKeyEnd c = true := by
  cases spelled <;> cases head <;> rfl

theorem steps_iff (text : Text) (segments : List Segment) :
    steps? text = .ok segments ↔ StepsSpelled text segments := by
  constructor
  · intro read
    fun_induction steps? text generalizing segments with
    | case1 =>
      cases read
      exact .nil
    | case3 after nonempty valid ih =>
      obtain ⟨rest, later, rfl⟩ := (Outcome.map_ok _ _ _).mp read
      have join : keyText after ++ afterKey after = after := List.takeWhile_append_dropWhile
      have spelled := StepsSpelled.key _ _ rest valid (ih rest later)
      rwa [join] at spelled
    | case6 after closed place numbered ih =>
      obtain ⟨rest, later, rfl⟩ := (Outcome.map_ok _ _ _).mp read
      rw [bracket_join after closed]
      exact .index _ _ place rest ((index_spelled_iff _ _).mp numbered) (ih rest later)
    | _ => cases read
  · intro spelled
    induction spelled with
    | nil => rw [steps?]
    | key name rest segments valid later ih =>
      have nonempty : name ++ rest ≠ [] := by
        intro none
        rw [(List.append_eq_nil_iff.mp none).1] at valid
        cases valid
      obtain ⟨front, back⟩ := key_run name valid rest (steps_spelled_head rest segments later)
      rw [steps?, if_neg nonempty, front, if_pos valid, back, ih]
      rfl
    | index inside rest place segments spelled later ih =>
      obtain ⟨front, back⟩ := bracket_run inside rest (index_spelled_open inside place spelled)
      rw [steps?, if_pos (by simp), front, (index_spelled_iff _ _).mpr spelled]
      simp only [back, ih]
      rfl

theorem of_text_iff (text : Text) (path : Path) : ofText? text = .ok path ↔ Spelled text path := by
  rw [ofText?]
  constructor
  · intro read
    split at read
    · cases read
    · split at read
      · rename_i valid
        obtain ⟨rest, later, rfl⟩ := (Outcome.map_ok _ _ _).mp read
        exact ⟨valid, afterKey text, List.takeWhile_append_dropWhile.symm, (steps_iff _ _).mp later⟩
      · cases read
  · rintro ⟨valid, behind, rfl, later⟩
    have nonempty : path.root ++ behind ≠ [] := by
      intro none
      rw [(List.append_eq_nil_iff.mp none).1] at valid
      cases valid
    obtain ⟨front, back⟩ := key_run path.root valid behind (steps_spelled_head _ _ later)
    rw [if_neg nonempty, front, if_pos valid, back, (steps_iff _ _).mpr later]
    rfl

theorem read_ok (text : Text) (path : Path) : read text = .ok path ↔ ofText? text = .ok path := by
  rw [read]
  cases ofText? text <;> simp

theorem text_injective (path other : Path) (valid : ∀ segment ∈ path.segments, segment.Valid)
    (otherValid : ∀ segment ∈ other.segments, segment.Valid) (same : path.text = other.text) :
    path = other := by
  obtain ⟨root, rest⟩ := List.forall_mem_cons.mp valid
  obtain ⟨otherRoot, otherRest⟩ := List.forall_mem_cons.mp otherValid
  have read := read_text path root rest
  rw [same, read_text other otherRoot otherRest] at read
  exact (Except.ok.inj read).symm

theorem read_spelling (text : Text) :
    (∀ path, read text = .ok path ↔ Spelled text path) ∧
    ((∀ path, ¬ Spelled text path) →
      ∃ fault, read text = .error (.typeMismatch (.malformedPath text fault))) ∧
    (∀ path : Path, (∀ segment ∈ path.segments, segment.Valid) → read path.text = .ok path) ∧
    ∀ path, read text = .ok path → read path.text = .ok path ∧
      ∀ other otherPath, read other = .ok otherPath →
        (otherPath.text = path.text ↔ otherPath = path) := by
  have accepted (path : Path) : read text = .ok path ↔ Spelled text path :=
    (read_ok text path).trans (of_text_iff text path)
  have back (path : Path) (valid : ∀ segment ∈ path.segments, segment.Valid) :
      read path.text = .ok path :=
    read_text path (List.forall_mem_cons.mp valid).1 (List.forall_mem_cons.mp valid).2
  refine ⟨accepted, fun unspelled => ?_, back, fun path done => ⟨?_, fun other otherPath otherDone => ?_⟩⟩
  · rw [read]
    cases refused : ofText? text with
    | ok path => exact absurd ((of_text_iff text path).mp refused) (unspelled path)
    | error fault => exact ⟨fault, rfl⟩
  · exact back path (read_valid text path done)
  · exact ⟨text_injective otherPath path (read_valid other otherPath otherDone)
      (read_valid text path done), congrArg Path.text⟩

def spaced : Text := "a[\u2003+007\t].b_[0]".toList

theorem read_spelling_spaced :
    read spaced = .ok ⟨['a'], [.index 7, .key ['b', '_'], .index 0]⟩ ∧
      Spelled spaced ⟨['a'], [.index 7, .key ['b', '_'], .index 0]⟩ ∧
      read "a[7].b_[0]".toList = .ok ⟨['a'], [.index 7, .key ['b', '_'], .index 0]⟩ := by
  have done : read spaced = .ok ⟨['a'], [.index 7, .key ['b', '_'], .index 0]⟩ := by decide +kernel
  obtain ⟨accepted, _, _, again⟩ := read_spelling spaced
  exact ⟨done, (accepted _).mp done, (again _ done).1⟩

end Path
end ParamStore

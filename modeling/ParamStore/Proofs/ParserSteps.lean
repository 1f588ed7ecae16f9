import ParamStore.Proofs.Grammar
import ParamStore.Proofs.ValueCanonical

set_option autoImplicit false

namespace ParamStore
namespace Parser

theorem version_suffix (tokens rest : List Located) (number : Option Nat)
    (read : version tokens = .ok (number, rest)) : rest <:+ tokens := by
  unfold version at read
  split at read
  · split at read
    · split at read <;> cases read
      · exact ⟨[_, _, _], rfl⟩
      · exact List.suffix_refl _
    · split at read
      · split at read <;> cases read
        exact ⟨[_, _, _], rfl⟩
      · cases read
        exact List.suffix_refl _
    · cases read
      exact List.suffix_refl _
  · cases read
    exact List.suffix_refl _

theorem steps_suffix (stop : Position) (tokens rest : List Located) (inwards : List Segment)
    (read : steps stop tokens = .ok (inwards, rest)) : rest <:+ tokens := by
  fun_induction steps stop tokens generalizing inwards rest with
  | case1 => exact absurd read (unexpected_ne _ _ _ _)
  | case2 => cases read
  | case3 => cases read
  | case4 _ _ _ _ _ more left found ih =>
    cases read
    exact (ih _ _ found).trans ⟨[_, _], rfl⟩
  | case5 => exact absurd read (unexpected_ne _ _ _ _)
  | case6 => cases read
  | case7 => cases read
  | case8 _ _ _ _ _ _ more left found ih =>
    cases read
    exact (ih _ _ found).trans ⟨[_, _, _], rfl⟩
  | case9 => exact absurd read (unexpected_ne _ _ _ _)
  | case10 =>
    cases read
    exact List.suffix_refl _

theorem external_suffix (tokens : List Located) : (external tokens).2 <:+ tokens := by
  unfold external
  split
  · exact List.suffix_cons _ _
  · exact List.suffix_refl _

theorem reference_suffix (stop : Position) (name : Text) (tokens rest : List Located)
    (found : Reference) (read : reference stop name tokens = .ok (found, rest)) :
    rest <:+ tokens := by
  rw [reference] at read
  split at read
  · cases read
  · rename_i number behind first
    split at read
    · cases read
    · rename_i inwards left second
      cases read
      exact (external_suffix left).trans
        ((steps_suffix _ _ _ _ second).trans (version_suffix _ _ _ first))

theorem complex_ok (stop opened : Position) (tokens rest : List Located) (value : Value)
    (read : complex stop opened tokens = .ok (value, rest)) :
    rest <:+ tokens ∧ ∃ parts, Value.ofComplex parts = .ok value := by
  obtain ⟨re, im, x, y, p, q, r, s, rfl, _, _, joined⟩ := (complex_iff _ _ _ _ _).mp read
  exact ⟨⟨[_, _, _, _], rfl⟩, ⟨x, y⟩, joined⟩

theorem skip_comma_suffix (tokens : List Located) : skipComma tokens <:+ tokens := by
  unfold skipComma
  split
  · exact List.suffix_cons _ _
  · exact List.suffix_refl _

def Words (tokens : List Located) : Prop :=
  ∀ located ∈ tokens, ∀ word, located.token = .word word → word.isKey = true

theorem words_suffix (tokens rest : List Located) (words : Words tokens) (suffix : rest <:+ tokens) :
    Words rest := fun located member => words located (suffix.subset member)

mutual
theorem derives_canonical (scope : Scope) (known : scope.document.Canonical)
    (tokens left : List Located) (words : Words tokens) (value : Value) (notes : Notes)
    (derived : Derives scope tokens value notes left) : value.Canonical ∧ left <:+ tokens := by
  match derived with
  | .number literal position rest number made =>
    exact ⟨⟨literal, made⟩, List.suffix_cons _ _⟩
  | .quoted literal position rest value made =>
    exact ⟨Value.of_string_canonical literal value made, List.suffix_cons _ _⟩
  | .table opened rest left found notes inside =>
    have later := words_suffix _ rest words (List.suffix_cons _ _)
    obtain ⟨canonical, suffix⟩ := entries_canonical scope known rest left later found notes inside
    exact ⟨⟨Keyed.of_list_ordered _, Value.of_list_canonical _ canonical⟩,
      suffix.trans (List.suffix_cons _ _)⟩
  | .sequence opened rest left found notes inside =>
    have later := words_suffix _ rest words (List.suffix_cons _ _)
    obtain ⟨canonical, suffix⟩ := elements_canonical scope known rest left later found notes inside
    exact ⟨canonical, suffix.trans (List.suffix_cons _ _)⟩
  | .complex opened rest left value read =>
    obtain ⟨suffix, parts, made⟩ := complex_ok _ _ _ _ _ read
    exact ⟨Value.of_complex_canonical parts value made, suffix.trans (List.suffix_cons _ _)⟩
  | .bool value position rest => exact ⟨trivial, List.suffix_cons _ _⟩
  | .nil position rest => exact ⟨trivial, List.suffix_cons _ _⟩
  | .reference word position rest left found value notes free read resolved =>
    have canonical := Reference.resolve_canonical scope known position found value notes resolved
    exact ⟨canonical, (reference_suffix _ _ _ _ _ read).trans (List.suffix_cons _ _)⟩
theorem entries_canonical (scope : Scope) (known : scope.document.Canonical)
    (tokens left : List Located) (words : Words tokens) (found : List (Text × Flagged Value))
    (notes : Notes) (derived : DerivesEntries scope tokens found notes left) :
    Value.EntriesCanonical found ∧ left <:+ tokens := by
  match derived with
  | .close position rest => exact ⟨trivial, List.suffix_cons _ _⟩
  | .entry first key colon behind between last value found notes more named item others =>
    have far : behind <:+ first :: ⟨.delimiter .colon, colon⟩ :: behind := ⟨[_, _], rfl⟩
    obtain ⟨canonical, itemSuffix⟩ := derives_canonical scope known behind between
      (words_suffix _ _ words far) value notes item
    have skipped := ((skip_comma_suffix between).trans itemSuffix).trans far
    obtain ⟨rest, suffix⟩ := entries_canonical scope known (skipComma between) last
      (words_suffix _ _ words skipped) found more others
    obtain ⟨word, free⟩ := name_word first key named
    exact ⟨⟨⟨words first (List.mem_cons_self ..) key word, free⟩, rfl, canonical, rest⟩,
      suffix.trans skipped⟩
theorem elements_canonical (scope : Scope) (known : scope.document.Canonical)
    (tokens left : List Located) (words : Words tokens) (found : List (Flagged Value))
    (notes : Notes) (derived : DerivesElements scope tokens found notes left) :
    Value.ItemsCanonical found ∧ left <:+ tokens := by
  match derived with
  | .close position rest => exact ⟨trivial, List.suffix_cons _ _⟩
  | .last tokens position rest value notes item =>
    obtain ⟨canonical, suffix⟩ := derives_canonical scope known tokens _ words value notes item
    exact ⟨⟨rfl, canonical, trivial⟩, (List.suffix_cons _ _).trans suffix⟩
  | .more tokens comma behind last value found notes more item others =>
    obtain ⟨canonical, suffix⟩ := derives_canonical scope known tokens _ words value notes item
    have further := (List.suffix_cons _ _).trans suffix
    obtain ⟨rest, ends⟩ := elements_canonical scope known behind last
      (words_suffix _ _ words further) found more others
    exact ⟨⟨rfl, canonical, rest⟩, ends.trans further⟩
end

end Parser
end ParamStore

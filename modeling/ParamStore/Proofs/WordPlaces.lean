import ParamStore.Proofs.Phrases

set_option autoImplicit false

namespace ParamStore
namespace Token

def nest (outer : List Delimiter) : Token → List Delimiter
  | .delimiter .openBrace => .openBrace :: outer
  | .delimiter .openBracket => .openBracket :: outer
  | .delimiter .openParen => .openParen :: outer
  | .delimiter .closeBrace | .delimiter .closeBracket | .delimiter .closeParen => outer.tail
  | _ => outer

def nesting (tokens : List Token) : List Delimiter := tokens.foldl nest []

def InTable (before : List Token) : Prop := (nesting before).head? = some .openBrace

def BeforeItem (before : List Token) : Prop :=
  (nesting before).head? = some .openBracket ∧
    (before.getLast? = some (.delimiter .openBracket) ∨ before.getLast? = some (.delimiter .comma))

-- A value stands alone, behind the colon of its entry, or in an array.
def BeforeValue (before : List Token) : Prop :=
  before = [] ∨ before.getLast? = some (.delimiter .colon) ∨ BeforeItem before

inductive PlainWord (before : List Token) (name : Text) (after : List Token) : Prop where
  | value (literal : name ∈ [trueWord, falseWord, nilWord]) (place : BeforeValue before) :
      PlainWord before name after
  | key (free : isReserved name = false) (table : InTable before)
      (colon : after.head? = some (.delimiter .colon)) : PlainWord before name after

def PlainWords (tokens : List Token) : Prop :=
  ∀ before name after, tokens = before ++ .word name :: after → PlainWord before name after

-- Behind the tokens before them, all words among the tokens are plain.
def Placed : List Token → List Token → Prop
  | _, [] => True
  | before, token :: rest =>
    (∀ name, token = .word name → PlainWord before name rest) ∧ Placed (before ++ [token]) rest

theorem placed_append (before first second : List Token) (here : Placed before first)
    (later : Placed (before ++ first) second) : Placed before (first ++ second) := by
  induction first generalizing before with
  | nil => simpa using later
  | cons token rest ih =>
    refine ⟨fun name same => ?_, ih (before ++ [token]) here.2 (by simpa using later)⟩
    cases here.1 name same with
    | value literal place => exact .value literal place
    | key free table colon =>
      refine .key free table ?_
      cases rest with
      | nil => cases colon
      | cons next more => exact colon

theorem placed_word (before front after : List Token) (name : Text)
    (placed : Placed before (front ++ .word name :: after)) : PlainWord (before ++ front) name after := by
  induction front generalizing before with
  | nil => simpa using placed.1 name rfl
  | cons token rest ih => simpa using ih (before ++ [token]) placed.2

end Token

namespace Phrase

open Token

mutual
theorem spelled_nests (inside : List Token) (phrase : Phrase) (spelled : Spells inside phrase)
    (outer : List Delimiter) : inside.foldl nest outer = outer := by
  match spelled with
  | .number _ | .single _ | .double _ | .complex _ _ | .bool _ | .nil => rfl
  | .array tokens items inside =>
    simp [List.foldl_append, nest, items_nest tokens items inside]
  | .table tokens entries inside =>
    simp [List.foldl_append, nest, entries_nest tokens entries inside]
theorem items_nest (inside : List Token) (items : List Phrase) (spelled : SpellsItems inside items)
    (outer : List Delimiter) : inside.foldl nest outer = outer := by
  match spelled with
  | .nil => rfl
  | .last _ item first => exact spelled_nests inside item first outer
  | .more tokens behind item items first others =>
    simp [List.foldl_append, nest, spelled_nests tokens item first, items_nest behind items others]
theorem entries_nest (inside : List Token) (entries : List (Text × Phrase))
    (spelled : SpellsEntries inside entries) (outer : List Delimiter) :
    inside.foldl nest outer = outer := by
  match spelled with
  | .nil => rfl
  | .cons key tokens comma behind item entries free first separated others =>
    rcases separated with rfl | rfl <;>
      simp [List.foldl_append, nest, spelled_nests tokens item first, entries_nest behind entries others]
end

theorem nesting_spelled (before inside : List Token) (phrase : Phrase) (spelled : Spells inside phrase) :
    nesting (before ++ inside) = nesting before := by
  rw [nesting, List.foldl_append, spelled_nests inside phrase spelled]
  rfl

mutual
theorem spelled_placed (inside : List Token) (phrase : Phrase) (spelled : Spells inside phrase)
    (before : List Token) (place : BeforeValue before) : Placed before inside := by
  match spelled with
  | .number _ | .single _ | .double _ | .complex _ _ => simp [Placed]
  | .bool value =>
    refine ⟨fun name same => ?_, trivial⟩
    cases same
    exact .value (by cases value <;> simp [encodeBool]) place
  | .nil =>
    refine ⟨fun name same => ?_, trivial⟩
    cases same
    exact .value (by simp) place
  | .array tokens items inside =>
    refine ⟨nofun, placed_append _ tokens _ (items_placed tokens items inside _ ⟨?_, ?_⟩) ?_⟩
    · simp [nesting, List.foldl_append, nest]
    · simp
    · exact ⟨nofun, trivial⟩
  | .table tokens entries inside =>
    refine ⟨nofun, placed_append _ tokens _ (entries_placed tokens entries inside _ ?_) ?_⟩
    · simp [InTable, nesting, List.foldl_append, nest]
    · exact ⟨nofun, trivial⟩
theorem items_placed (inside : List Token) (items : List Phrase) (spelled : SpellsItems inside items)
    (before : List Token) (place : BeforeItem before) : Placed before inside := by
  match spelled with
  | .nil => trivial
  | .last _ item first => exact spelled_placed inside item first before (.inr (.inr place))
  | .more tokens behind item items first others =>
    refine placed_append before tokens _ (spelled_placed tokens item first before (.inr (.inr place)))
      ⟨nofun, items_placed behind items others _ ⟨?_, ?_⟩⟩
    · have same := nesting_spelled before tokens item first
      rw [nesting, List.foldl_append]
      exact (congrArg List.head? same).trans place.1
    · simp
theorem entries_placed (inside : List Token) (entries : List (Text × Phrase))
    (spelled : SpellsEntries inside entries) (before : List Token) (table : InTable before) :
    Placed before inside := by
  match spelled with
  | .nil => trivial
  | .cons key tokens comma behind item entries free first separated others =>
    have colon : InTable (before ++ [.word key] ++ [.delimiter .colon]) := by
      simpa [InTable, nesting, List.foldl_append, nest] using table
    refine ⟨fun name same => ?_, nofun, placed_append _ tokens _
      (spelled_placed tokens item first _ (.inr (.inl (by simp)))) ?_⟩
    · cases same
      exact .key free table rfl
    · have behindItem : InTable (before ++ [.word key] ++ [.delimiter .colon] ++ tokens) := by
        rw [InTable, nesting_spelled _ tokens item first]
        exact colon
      rcases separated with rfl | rfl
      · exact entries_placed behind entries others _ behindItem
      · refine ⟨nofun, entries_placed behind entries others _ ?_⟩
        rw [InTable, nesting, List.foldl_append]
        exact behindItem
end

theorem spelled_words (tokens : List Token) (phrase : Phrase) (spelled : Spells tokens phrase) :
    PlainWords tokens := by
  intro before name after split
  have placed := spelled_placed tokens phrase spelled [] (.inl rfl)
  rw [split] at placed
  exact placed_word [] before after name placed

end Phrase
end ParamStore

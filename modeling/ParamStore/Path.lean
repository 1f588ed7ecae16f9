import ParamStore.IntType

set_option autoImplicit false

namespace ParamStore

inductive Segment where
  | key (name : Text)
  | index (place : Nat)
deriving DecidableEq, Repr

namespace Segment

def text : Segment → Text
  | key name => name
  | index place => '[' :: Text.ofNat place ++ [']']

def step : Segment → Text
  | key name => '.' :: name
  | index place => '[' :: Text.ofNat place ++ [']']

end Segment

structure Path where
  root : Text
  rest : List Segment
deriving DecidableEq, Repr

namespace Path

def segments (path : Path) : List Segment := .key path.root :: path.rest

def text (path : Path) : Text := path.root ++ path.rest.flatMap Segment.step

inductive Fault where
  | keyExpected
  | trailingDot
  | unclosedBracket
  | badIndex
  | unexpectedCharacter
  | empty
deriving DecidableEq, Repr

def indexLimit : Nat := Width.word.count

-- Blanks around an index and one plus sign before it are allowed.
def index? (text : Text) : Option Nat :=
  let body : Text := text.trim
  let digits : Text := if body.head? = some '+' then body.tail else body
  if digits ≠ [] ∧ digits.allDigits = true ∧ digits.toNat < indexLimit then some digits.toNat
  else none

def isKeyEnd (c : Char) : Bool := c == '.' || c == '['

def keyText (text : Text) : Text := text.takeWhile fun c => !isKeyEnd c
def afterKey (text : Text) : Text := text.dropWhile fun c => !isKeyEnd c
def indexText (text : Text) : Text := text.takeWhile (· != ']')
def afterBracket (text : Text) : Text := (text.dropWhile (· != ']')).tail

theorem after_key_length (text : Text) : (afterKey text).length ≤ text.length :=
  (List.dropWhile_sublist _).length_le

theorem after_bracket_length (text : Text) : (afterBracket text).length ≤ text.length :=
  ((List.tail_sublist _).trans (List.dropWhile_sublist _)).length_le

def steps? : Text → Except Fault (List Segment)
  | [] => .ok []
  | '.' :: after =>
    if after = [] then .error .trailingDot
    else if (keyText after).isKey then
      (steps? (afterKey after)).map (.key (keyText after) :: ·)
    else .error .keyExpected
  | '[' :: after =>
    if ']' ∈ after then
      match index? (indexText after) with
      | none => .error .badIndex
      | some place => (steps? (afterBracket after)).map (.index place :: ·)
    else .error .unclosedBracket
  | _ :: _ => .error .unexpectedCharacter
termination_by text => text.length
decreasing_by
  · have bound := after_key_length after
    simp only [List.length_cons]
    omega
  · have bound := after_bracket_length after
    simp only [List.length_cons]
    omega

def ofText? (text : Text) : Except Fault Path :=
  if text = [] then .error .empty
  else if (keyText text).isKey then (steps? (afterKey text)).map (⟨keyText text, ·⟩)
  else .error .keyExpected

end Path
end ParamStore

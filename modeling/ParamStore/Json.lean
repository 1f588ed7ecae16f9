import ParamStore.Keyed
import ParamStore.Number.Written

set_option autoImplicit false

namespace ParamStore

inductive Json where
  | null
  | bool (value : Bool)
  | integer (value : Int)
  | float (value : Double)
  | string (text : Text)
  | array (items : List Json)
  | object (members : List (Text × Json))

namespace Json

def controlEscape (c : Char) : Text :=
  ['\\', 'u', '0', '0', Nat.digitChar (c.toNat / 16), Nat.digitChar (c.toNat % 16)]

def escapeChar (c : Char) : Text :=
  if c = '"' then ['\\', '"']
  else if c = '\\' then ['\\', '\\']
  else if c.toNat = 8 then ['\\', 'b']
  else if c.toNat = 9 then ['\\', 't']
  else if c.toNat = 10 then ['\\', 'n']
  else if c.toNat = 12 then ['\\', 'f']
  else if c.toNat = 13 then ['\\', 'r']
  else if c.toNat < 32 then controlEscape c
  else [c]

def quote (text : Text) : Text := '"' :: text.flatMap escapeChar ++ ['"']

def newline (depth : Nat) : Text := '\n' :: List.replicate (2 * depth) ' '

def block (opening closing : Char) (depth : Nat) (items : List Text) : Text :=
  match items with
  | [] => [opening, closing]
  | _ => opening :: Text.joined [','] (items.map (newline (depth + 1) ++ ·)) ++
    newline depth ++ [closing]

mutual
def pretty (depth : Nat) : Json → Text
  | .null => ['n', 'u', 'l', 'l']
  | .bool true => ['t', 'r', 'u', 'e']
  | .bool false => ['f', 'a', 'l', 's', 'e']
  | .integer value => Text.ofInt value
  | .float value => value.jsonText
  | .string text => quote text
  | .array items => block '[' ']' depth (prettyItems (depth + 1) items)
  | .object members => block '{' '}' depth (prettyMembers (depth + 1) members)
def prettyItems (depth : Nat) : List Json → List Text
  | [] => []
  | item :: tail => pretty depth item :: prettyItems depth tail
def prettyMembers (depth : Nat) : List (Text × Json) → List Text
  | [] => []
  | (key, item) :: tail =>
    (quote key ++ ':' :: ' ' :: pretty depth item) :: prettyMembers depth tail
end

def compactStrings (items : List Text) : Text :=
  '[' :: Text.joined [','] (items.map quote) ++ [']']

def member? (key : Text) : Json → Option Json
  | .object members => Keyed.lookup key members
  | _ => none

def element? (place : Nat) : Json → Option Json
  | .array items => items[place]?
  | _ => none

end Json
end ParamStore

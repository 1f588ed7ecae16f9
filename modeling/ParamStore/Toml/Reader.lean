import ParamStore.Complex
import ParamStore.Toml
import ParamStore.Toml.Quoted

set_option autoImplicit false

namespace ParamStore
namespace Toml

def skipBlanks (text : Text) : Text := text.dropWhile isBlank

def lineEnd? (text : Text) : Option Text :=
  let behind : Text := skipBlanks text
  let rest : Text := if behind.head? = some '#' then behind.dropWhile isPlain else behind
  match rest with
  | [] => some []
  | '\n' :: left => some left
  | '\r' :: '\n' :: left => some left
  | _ => none

def skipLines? (inComment : Bool) : Text → Option Text
  | [] => if inComment then none else some []
  | c :: rest =>
    if c = '\n' then skipLines? false rest
    else if c = '\r' then if rest.head? = some '\n' then skipLines? inComment rest else none
    else if inComment then if isPlain c then skipLines? true rest else none
    else if isBlank c then skipLines? false rest
    else if c = '#' then skipLines? true rest
    else some (c :: rest)

def isBareChar (c : Char) : Bool := c.isAlphanum || c == '_' || c == '-'

def keyPart? (text : Text) : Option (Text × Text) :=
  match text with
  | '"' :: _ => quoted? text
  | '\'' :: _ => quoted? text
  | _ =>
    let name : Text := text.takeWhile isBareChar
    if name = [] then none else some (name, text.dropWhile isBareChar)

-- The limits of the notation; they bound how often the loops below run.
def mostParts : Nat := 79
def mostLevels : Nat := 79

def key? : Nat → Text → Option ((List Text × Text) × Text)
  | 0, _ => none
  | room + 1, text => do
    let (part, behind) ← keyPart? (skipBlanks text)
    match skipBlanks behind with
    | '.' :: rest =>
      let ((path, key), left) ← key? room rest
      return ((part :: path, key), left)
    | left => return (([], part), left)

def assignment? (value : Text → Option (Toml × Text)) (text : Text) :
    Option ((List Text × Text × Toml) × Text) := do
  let ((path, key), behind) ← key? mostParts text
  match behind with
  | '=' :: rest =>
    let (found, left) ← value (skipBlanks rest)
    return ((path, key, found), left)
  | _ => none

def items? (value : Text → Option (Toml × Text)) : Nat → Text → Option (List Toml × Text)
  | 0, _ => none
  | count + 1, text => do
    match ← skipLines? false text with
    | ']' :: left => return ([], left)
    | start =>
      let (first, behind) ← value start
      match ← skipLines? false behind with
      | ',' :: rest =>
        let (more, left) ← items? value count rest
        return (first :: more, left)
      | ']' :: left => return ([first], left)
      | _ => none

-- There is at least one assignment between the braces, and no comma follows the last.
def members? (value : Text → Option (Toml × Text)) (before : Keyed Toml) :
    Nat → Text → Option (Keyed Toml × Text)
  | 0, _ => none
  | count + 1, text => do
    let ((path, key, found), behind) ← assignment? value text
    let entries ← assign before path key found
    match skipBlanks behind with
    | ',' :: rest => members? value entries count rest
    | '}' :: left => return (entries, left)
    | _ => none

def scalar? (text : Text) : Option (Toml × Text) :=
  if trueWord.isPrefixOf text then some (.bool true, text.drop trueWord.length)
  else if falseWord.isPrefixOf text then some (.bool false, text.drop falseWord.length)
  else (string? text).map fun (content, left) => (.string content, left)

def value? : Nat → Text → Option (Toml × Text)
  | 0, text => scalar? text
  | room + 1, text =>
    match text with
    | '[' :: rest => (items? (value? room) (rest.length + 1) rest).map fun (items, left) =>
      (.array items, left)
    | '{' :: rest =>
      match skipBlanks rest with
      | '}' :: left => some (.table .braces [], left)
      | start => (members? (value? room) [] (start.length + 1) start).map fun (entries, left) =>
        (.table .braces entries, left)
    | _ => scalar? text

def statement? (text : Text) : Option (Statement × Text) :=
  match text with
  | '[' :: '[' :: rest => do
    let ((path, key), behind) ← key? mostParts rest
    match behind with
    | ']' :: ']' :: left => return (.listed path key, left)
    | _ => none
  | '[' :: rest => do
    let ((path, key), behind) ← key? mostParts rest
    match behind with
    | ']' :: left => return (.header path key, left)
    | _ => none
  | _ => do
    let ((path, key, found), left) ← assignment? (value? mostLevels) text
    return (.assignment path key found, left)

def statements? : Nat → Text → Option (List Statement)
  | 0, _ => none
  | count + 1, text =>
    match skipBlanks text with
    | [] => some []
    | c :: rest =>
      if c = '#' ∨ c = '\n' ∨ c = '\r' then do
        let left ← lineEnd? (c :: rest)
        statements? count left
      else do
        let (first, behind) ← statement? (c :: rest)
        let left ← lineEnd? behind
        let more ← statements? count left
        return first :: more

def byteOrderMark : Char := '\ufeff'

def read (source : Text) : Option (Keyed Toml) := do
  let text : Text := if source.head? = some byteOrderMark then source.tail else source
  let found ← statements? (text.length + 1) text
  let draft ← found.foldlM Draft.add Draft.empty
  return draft.root

end Toml
end ParamStore

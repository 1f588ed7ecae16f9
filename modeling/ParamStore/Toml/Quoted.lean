import ParamStore.Token.Lexer

set_option autoImplicit false

namespace ParamStore
namespace Toml

def isPlain (c : Char) : Bool := c == '\t' || (decide (32 ≤ c.toNat) && c.toNat != 127)

def isBlank (c : Char) : Bool := c == ' ' || c == '\t'

def escapedChar? (c : Char) : Option Char :=
  if c = '"' ∨ c = '\\' then some c
  else if c = 'b' then some '\x08'
  else if c = 't' then some '\t'
  else if c = 'n' then some '\n'
  else if c = 'f' then some '\x0c'
  else if c = 'r' then some '\r'
  else none

def codeChar? (code : Nat) : Option Char :=
  if code.isValidChar then some (Char.ofNat code) else none

-- What the characters before have begun: nothing, an escape, a code that still wants `left` digits, the
-- end of a line behind a backslash, or the blanks and empty lines behind such a line.
inductive Escape where
  | outside
  | begun
  | code (left value : Nat)
  | trailing
  | indent
deriving DecidableEq, Repr

-- Over several lines a backslash at the end of a line joins it to the next text.
def unescape (lines : Bool) : Escape → Text → Option Text
  | state, [] => if state = .outside ∨ state = .indent then some [] else none
  | .begun, c :: rest =>
    if c = 'u' then unescape lines (.code 4 0) rest
    else if c = 'U' then unescape lines (.code 8 0) rest
    else if lines && isBlank c then unescape lines .trailing rest
    else if lines && c == '\n' then unescape lines .indent rest
    else
      match escapedChar? c with
      | none => none
      | some plain => (unescape lines .outside rest).map (plain :: ·)
  | .code left value, c :: rest =>
    match Text.hexValue? c with
    | none => none
    | some digit =>
      if 1 < left then unescape lines (.code (left - 1) (16 * value + digit)) rest
      else
        match codeChar? (16 * value + digit) with
        | none => none
        | some plain => (unescape lines .outside rest).map (plain :: ·)
  | .trailing, c :: rest =>
    if isBlank c then unescape lines .trailing rest
    else if c = '\n' then unescape lines .indent rest
    else none
  | state, c :: rest =>
    if state = .indent ∧ (isBlank c || c == '\n') = true then unescape lines .indent rest
    else if c = '\\' then unescape lines .begun rest
    else if isPlain c || (lines && c == '\n') then (unescape lines .outside rest).map (c :: ·)
    else none

-- One or two further quotes behind three in a row belong to the text.
def closeTriple? (quote : Char) : Text → Option (Text × Text)
  | [] => none
  | [_] => none
  | c :: next :: rest =>
    if c = '\\' ∧ quote = '"' then
      (closeTriple? quote rest).map fun (inside, left) => (c :: next :: inside, left)
    else if c = quote ∧ next = quote ∧ rest.head? = some quote then
      let further := (rest.tail.takeWhile (· == quote)).take 2
      some (further, rest.tail.drop further.length)
    else (closeTriple? quote (next :: rest)).map fun (inside, left) => (c :: inside, left)

def joinBreaks : Text → Text
  | [] => []
  | '\r' :: '\n' :: rest => '\n' :: joinBreaks rest
  | c :: rest => c :: joinBreaks rest

def afterBreak : Text → Text
  | '\n' :: rest => rest
  | text => text

def quoted? (text : Text) : Option (Text × Text) :=
  match text with
  | '"' :: rest => do
    let (inside, left) ← Token.closeQuote? '"' rest
    let content ← unescape false .outside inside.dropLast
    return (content, left)
  | '\'' :: rest => do
    let (inside, left) ← Token.closeQuote? '\'' rest
    if inside.dropLast.all isPlain then some (inside.dropLast, left) else none
  | _ => none

def string? (text : Text) : Option (Text × Text) :=
  match text with
  | '"' :: '"' :: '"' :: rest => do
    let (inside, left) ← closeTriple? '"' rest
    let content ← unescape true .outside (afterBreak (joinBreaks inside))
    return (content, left)
  | '\'' :: '\'' :: '\'' :: rest => do
    let (inside, left) ← closeTriple? '\'' rest
    let content := afterBreak (joinBreaks inside)
    if content.all fun c => isPlain c || c == '\n' then some (content, left) else none
  | other => quoted? other

end Toml
end ParamStore

import ParamStore.Error

set_option autoImplicit false

namespace ParamStore
namespace Text

def unescapeChar? (c : Char) : Option Char :=
  if c = '"' ∨ c = '\'' ∨ c = '\\' then some c
  else if c = 'n' then some '\n'
  else if c = 't' then some '\t'
  else none

def escapeChar (c : Char) : Text :=
  if c = '"' ∨ c = '\'' ∨ c = '\\' then ['\\', c]
  else if c = '\n' then ['\\', 'n']
  else if c = '\t' then ['\\', 't']
  else [c]

def escape (content : Text) : Text := content.flatMap escapeChar

-- A backslash at the very end stands for itself.
def unescape : Text → Except Char Text
  | [] => .ok []
  | '\\' :: [] => .ok ['\\']
  | '\\' :: c :: rest =>
    match unescapeChar? c with
    | none => .error c
    | some plain => (unescape rest).map (plain :: ·)
  | c :: rest => (unescape rest).map (c :: ·)

def readInside (inside : Text) : Except Error Text :=
  match unescape inside with
  | .ok content => .ok content
  | .error escaped => .error (.typeMismatch (.unknownEscape escaped inside))

-- Blanks, quotes and backslashes are lost or change their meaning outside quotes.
def needsQuotes (c : Char) : Bool :=
  c == '"' || c == '\'' || c == '\\' || c == '\n' || c == '\t' || c == ' '

def quoted (text : Text) : Text := '"' :: text ++ ['"']

def canonical (content : Text) : Text :=
  if content = [] ∨ content.any needsQuotes then quoted (escape content) else escape content

-- What a raw text stands for: inside double quotes escapes count, inside single quotes nothing
-- does, and without quotes the text stands for itself.
def content (raw : Text) : Except Error Text :=
  match enclosed? '"' raw, enclosed? '\'' raw with
  | some inside, _ => readInside inside
  | none, some inside => .ok inside
  | none, none => .ok raw

end Text

def encodeString (raw : Text) : Except Error Text := raw.content.map Text.canonical

def decodeString (text : Text) : Except Error Text :=
  match text.enclosed? '"' with
  | some inside => Text.readInside inside
  | none => .ok text

end ParamStore

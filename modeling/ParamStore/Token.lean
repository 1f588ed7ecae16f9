import ParamStore.Position

set_option autoImplicit false

namespace ParamStore

inductive External where
  | file
  | database
deriving DecidableEq, Repr

def External.word : External → Text
  | .file => ['f', 'i', 'l', 'e']
  | .database => ['D', 'B']

def External.text (place : External) : Text := '@' :: place.word

inductive Delimiter where
  | openBrace
  | closeBrace
  | openBracket
  | closeBracket
  | openParen
  | closeParen
  | colon
  | comma
  | dot
deriving DecidableEq, Repr

namespace Delimiter

def char : Delimiter → Char
  | openBrace => '{'
  | closeBrace => '}'
  | openBracket => '['
  | closeBracket => ']'
  | openParen => '('
  | closeParen => ')'
  | colon => ':'
  | comma => ','
  | dot => '.'

def all : List Delimiter :=
  [openBrace, closeBrace, openBracket, closeBracket, openParen, closeParen, colon, comma, dot]

def ofChar? (c : Char) : Option Delimiter := all.find? fun delimiter => delimiter.char = c

end Delimiter

inductive Token where
  | delimiter (mark : Delimiter)
  | deferred (place : External)
  | number (literal : Text)
  /-- A quoted text, with its quotes and its escapes as written. -/
  | quoted (literal : Text)
  | word (name : Text)
deriving DecidableEq, Repr

def Token.text : Token → Text
  | .delimiter mark => [mark.char]
  | .deferred place => place.text
  | .number literal => literal
  | .quoted literal => literal
  | .word name => name

structure Located where
  token : Token
  position : Position
deriving DecidableEq, Repr

structure TokenStream where
  tokens : List Located
  stop : Position
deriving DecidableEq, Repr

end ParamStore

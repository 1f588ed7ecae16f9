import ParamStore.IntType
import ParamStore.Path
import ParamStore.Token

set_option autoImplicit false

namespace ParamStore

/-- Values do not tell integers and floats apart. -/
inductive Shape where
  | nil
  | bool
  | number
  | integer
  | float
  | complex
  | string
  | sequence
  | table
deriving DecidableEq, Repr

def Shape.name : Shape → String
  | nil => "nil"
  | bool => "bool"
  | number => "number"
  | integer => "integer"
  | float => "float"
  | complex => "complex"
  | string => "string"
  | sequence => "sequence"
  | table => "table"

inductive Form where
  | nil
  | bool
  | number
  | float
  | complex
  | identifier
deriving DecidableEq, Repr

def Form.name : Form → String
  | nil => "nil string"
  | bool => "bool string"
  | number => "number string"
  | float => "float string"
  | complex => "complex string"
  | identifier => "parameter set id"

inductive Target where
  | integer
  | sized (type : IntType)
  | single
  | double
deriving DecidableEq, Repr

def Target.name : Target → String
  | integer => "integer"
  | sized type => type.name
  | single => "f32"
  | double => "f64"

def Path.Fault.message : Path.Fault → String
  | keyExpected => "expected a key"
  | trailingDot => "trailing '.'"
  | unclosedBracket => "unclosed '['"
  | badIndex => "index is not a non-negative integer"
  | unexpectedCharacter => "unexpected character"
  | empty => "empty path"

inductive Mismatch where
  | malformed (form : Form) (text : Text)
  | notIntegral (text : Text)
  | notANumber
  | unknownEscape (escaped : Char) (inside : Text)
  | malformedPath (text : Text) (fault : Path.Fault)
  | invalidKey (key : Text)
  | noMember (key : Text) (found : Shape)
  | noElement (place : Nat) (found : Shape)
  | noStep (step : Segment) (path : Text) (found : Shape)
  | noPlace (step : Segment) (path : Text) (found : Shape)
  | blocked (step : Segment) (path : Text) (found : Shape)
  | unexpectedShape (wanted found : Shape)
  | notSingle (path : Text) (found : Shape)
  | within (path : Text) (cause : Mismatch)
  | inReference (position : Position) (reference : Text) (cause : Mismatch)
deriving DecidableEq, Repr

def Text.shown (text : Text) : String := String.ofList text

def Mismatch.message : Mismatch → String
  | malformed form text => s!"invalid {form.name}: {text.shown}"
  | notIntegral text => s!"not an integral value: {text.shown}"
  | notANumber => "NaN has no canonical form"
  | unknownEscape escaped inside => s!"unknown escape \\{escaped} in: {inside.shown}"
  | malformedPath text fault => s!"malformed path '{text.shown}': {fault.message}"
  | invalidKey key => s!"invalid key '{key.shown}'"
  | noMember key found => s!"cannot look up '{key.shown}' in a {found.name}"
  | noElement place found => s!"cannot index [{place}] into a {found.name}"
  | noStep step path found =>
    s!"cannot apply '{step.text.shown}' of '{path.shown}' to a {found.name}"
  | noPlace step path found =>
    s!"cannot insert '{step.text.shown}' of path '{path.shown}' into a {found.name}"
  | blocked (.key name) path found =>
    s!"cannot insert '{path.shown}': '{name.shown}' would go inside a {found.name}"
  | blocked (.index place) path found =>
    s!"cannot insert '{path.shown}': [{place}] would go inside a {found.name}"
  | unexpectedShape wanted found => s!"expected {wanted.name}, found {found.name}"
  | notSingle path found => s!"'{path.shown}' holds a {found.name}, not a single value"
  | within path cause => s!"'{path.shown}': {cause.message}"
  | inReference position reference cause =>
    s!"{position.text.shown}: {cause.message} (in '{reference.shown}')"

inductive Expectation where
  | name
  | value
  | number
  | index
  | delimiter (mark : Delimiter)
  | elementEnd
  | endOfInput
deriving DecidableEq, Repr

def Expectation.message : Expectation → String
  | name => "a name"
  | value => "a value"
  | number => "a number"
  | index => "a non-negative integer"
  | delimiter mark => s!"'{mark.char}'"
  | elementEnd => "',' or ']'"
  | endOfInput => "end of input"

def Token.describe : Option Token → String
  | none => "end of input"
  | some token => token.text.shown

inductive Fault where
  | unterminatedString
  | unexpectedCharacter (c : Char)
  | danglingSign (sign : Char)
  | unknownMarker (name : Text)
  | prologDisabled
  | nestedProlog
  | strayPrologEnd
  | unterminatedProlog
  | misplacedWord (word : Text)
  | reservedName (word : Text)
  | unexpected (wanted : Expectation) (found : Option Token)
  | indexTooLarge (digits : Text)
  | versionTooLarge (digits : Text)
  | unterminatedTable
  | unterminatedArray
  | unresolved (reference : Text)
deriving DecidableEq, Repr

def unresolvedMessage (reference : Text) : String := s!"unresolved reference '{reference.shown}'"

def Fault.message : Fault → String
  | unterminatedString => "unterminated string"
  | unexpectedCharacter c => s!"unexpected character '{c}'"
  | danglingSign sign => s!"expected a number after '{sign}'"
  | unknownMarker name =>
    s!"unknown reference marker '@{name.shown}', expected @file or @DB"
  | prologDisabled => "prolog blocks are disabled"
  | nestedProlog => "nested BEGIN_PROLOG"
  | strayPrologEnd => "END_PROLOG without BEGIN_PROLOG"
  | unterminatedProlog => "unterminated prolog"
  | misplacedWord word => s!"{word.shown} is only allowed at top level"
  | reservedName word => s!"'{word.shown}' is reserved and cannot be used as a name"
  | unexpected wanted found => s!"expected {wanted.message}, found {Token.describe found}"
  | indexTooLarge digits => s!"index {digits.shown} is too large"
  | versionTooLarge digits => s!"version {digits.shown} is too large"
  | unterminatedTable => "unterminated table"
  | unterminatedArray => "unterminated array"
  | unresolved reference => unresolvedMessage reference

inductive Error where
  | parse (position : Position) (fault : Fault)
  | badNumber (position : Position) (literal : Text) (cause : Error)
  | badLiteral (position : Position) (cause : Error)
  | cantFind (key : Text)
  | typeMismatch (cause : Mismatch)
  | cantInsert (path : Text)
  | tooLarge (text : Text) (target : Target)
  | cantHappen (text : Text)
  | conversion (path : Text) (reason : Text)
deriving DecidableEq, Repr

namespace Error

-- The categories that callers tell apart.
inductive Kind where
  | cantFind
  | cantInsert
  | cantHappen
  | numberTooLarge
  | typeMismatch
  | parseError
  | conversion
deriving DecidableEq, Repr

def Kind.describe : Kind → String
  | cantFind => "Can't find key"
  | cantInsert => "Can't insert key"
  | cantHappen => "Can't happen"
  | numberTooLarge => "Excessive value"
  | typeMismatch => "Type mismatch"
  | parseError => "Parse error"
  | conversion => "Conversion failed"

def kind : Error → Kind
  | parse _ _ => .parseError
  | badNumber _ _ _ => .parseError
  | badLiteral _ _ => .parseError
  | cantFind _ => .cantFind
  | typeMismatch _ => .typeMismatch
  | cantInsert _ => .cantInsert
  | tooLarge _ _ => .numberTooLarge
  | cantHappen _ => .cantHappen
  | conversion _ _ => .conversion

def position? : Error → Option Position
  | parse position _ => some position
  | badNumber position _ _ => some position
  | badLiteral position _ => some position
  | _ => none

def message : Error → String
  | parse position fault => s!"parse error at {position.text.shown}: {fault.message}"
  | badNumber position literal cause =>
    s!"parse error at {position.text.shown}: bad number {literal.shown}: {cause.message}"
  | badLiteral position cause => s!"parse error at {position.text.shown}: {cause.message}"
  | cantFind key => s!"can't find key: {key.shown}"
  | typeMismatch cause => s!"type mismatch: {cause.message}"
  | cantInsert path => s!"can't insert key: {path.shown}"
  | tooLarge text target => s!"excessive value: {text.shown} does not fit in {target.name}"
  | cantHappen text => s!"can't happen: {text.shown}"
  | conversion path reason => s!"conversion of '{path.shown}' failed: {reason.shown}"

-- Names the whole path in place of the key that was missing.
def missingAt (path : Text) : Error → Error
  | cantFind _ => cantFind path
  | other => other

def within (path : Text) : Error → Error
  | typeMismatch cause => typeMismatch (.within path cause)
  | other => other

end Error

def Path.read (text : Text) : Except Error Path :=
  match Path.ofText? text with
  | .ok path => .ok path
  | .error fault => .error (.typeMismatch (.malformedPath text fault))

end ParamStore

import ParamStore.Config
import ParamStore.Materialize
import ParamStore.ParameterSet.Typed

set_option autoImplicit false

namespace ParamStore

inductive ValueType where
  | bool
  | int
  | float
  | string
  | set
deriving DecidableEq, Repr

inductive Command where
  | parse (json : Bool)
  | get (path : Text) (type : Option ValueType)
  | keys (tablesOnly : Bool)
  | id (path : Option Text)
  | check
deriving DecidableEq, Repr

structure Report where
  notes : List String
  outcome : Except String String

namespace Command

def home : Nat := 0

def freshDepot : Depot := ⟨[.empty]⟩

def about (context : String) (error : Error) : String := s!"{context}: {error.message}"

def sourceText (file : String) : FileState → Except String Text
  | .missing => .error s!"reading {file}: No such file or directory (os error 2)"
  | .notText => .error s!"reading {file}: stream did not contain valid UTF-8"
  | .text content => .ok content

def readDocument (options : ParseOptions) (file : String) (state : FileState) :
    Except String Document := do
  let source ← sourceText file state
  (Document.read options source).mapError (about s!"parsing {file}")

def noteLines (file : String) (document : Document) : List String :=
  document.diagnostics.map (fun diagnostic => s!"warning: {file}:{diagnostic.line}") ++
    document.deferred.map fun deferred =>
      s!"note: {file}:{deferred.position.text.shown}: '{deferred.reference.shown}' " ++
        s!"is deferred to {deferred.place.text.shown}"

def parseText (config : Config) (json : Bool) (store : Store) (set : ParameterSet) :
    Except String Text :=
  if json ∨ config.format = .json then
    match set.json store with
    | .error error => .error error.message
    | .ok parameters =>
      if config.showIds then
        .ok ((Json.object [("id".toList, .string set.id.hex),
          ("parameters".toList, parameters)]).pretty 0)
      else .ok (parameters.pretty 0)
  else if config.showIds then .ok (set.text store ++ "\n# id: ".toList ++ set.id.hex)
  else .ok (set.text store)

def valueText (config : Config) (depot : Depot) (set : ParameterSet) (path : Text) :
    Option ValueType → Except Error Text
  | none => do
    let cell ← set.get depot .cell path
    return (depot.store set.home).cellText cell
  | some .bool => do
    let value ← set.get depot .bool path
    return encodeBool value
  | some .int => do
    let value ← set.get depot (.int .i128) path
    return Text.ofInt value.1
  | some .float => do
    let value ← set.get depot .double path
    return Binary.plainText value
  | some .string => do
    let value ← set.get depot .string path
    return if config.format = .json then Json.quote value else value
  | some .set => do
    let inner ← set.get depot .set path
    let store := depot.store inner.home
    if config.format = .json then return (← inner.json store).pretty 0
    else return inner.text store

def keyLine (config : Config) (depot : Depot) (set : ParameterSet) (key : Text) :
    Except Error Text :=
  if config.showIds ∧ set.tableKeys.contains key then do
    let inner ← set.get depot .set key
    return key ++ '\t' :: inner.id.hex
  else return key

def keysText (config : Config) (tablesOnly : Bool) (depot : Depot) (set : ParameterSet) :
    Except Error Text :=
  let keys := if tablesOnly then set.tableKeys else set.keys
  if config.format = .json then .ok (Json.compactStrings keys)
  else do
    let lines ← keys.mapM (keyLine config depot set)
    return Text.joined ['\n'] lines

def idText (depot : Depot) (set : ParameterSet) : Option Text → Except String Text
  | none => .ok set.id.hex
  | some path =>
    match set.get depot .set path with
    | .ok inner => .ok (ParameterSet.id inner).hex
    | .error error => .error (about s!"'{path.shown}' is not a table" error)

def checkText (file : String) (document : Document) : Except String String :=
  let bindings := document.bindings
  let named := (bindings.filter fun binding => binding.name.isSome).length
  let inProlog := (bindings.filter fun binding => binding.item.inProlog).length
  let missing := document.diagnostics.length
  if 0 < missing then .error s!"{file}: {missing} unresolved reference(s)"
  else .ok (s!"{file}: ok ({bindings.length} bindings, {named} named, {inProlog} in prolog, " ++
    s!"{document.deferred.length} deferred)")

-- An empty list of keys leaves no empty line.
def prints : Command → String → Bool
  | .keys _, text => text != ""
  | _, _ => true

def answer (config : Config) (file : String) (depot : Depot) (set : ParameterSet)
    (document : Document) : Command → Except String String
  | .parse json => (parseText config json (depot.store home) set).map Text.shown
  | .get path type =>
    ((valueText config depot set path type).mapError
      (about s!"looking up '{path.shown}' in {file}")).map Text.shown
  | .keys tablesOnly =>
    ((keysText config tablesOnly depot set).mapError Error.message).map Text.shown
  | .id path => (idText depot set path).map Text.shown
  | .check => checkText file document

def run (config : Config) (file : String) (state : FileState) (command : Command) : Report :=
  match readDocument config.parse file state with
  | .error failure => ⟨[], .error failure⟩
  | .ok document =>
    let notes := noteLines file document
    if command = .check then ⟨notes, checkText file document⟩
    else
      match document.materialize freshDepot home with
      | (_, .error error) => ⟨notes, .error (about s!"materializing {file}" error)⟩
      | (depot, .ok (set, _)) => ⟨notes, answer config file depot set document command⟩

end Command
end ParamStore

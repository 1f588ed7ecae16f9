import ParamStore.Document.Parser
import ParamStore.Toml.Reader

set_option autoImplicit false

namespace ParamStore

inductive OutputFormat where
  | text
  | json
deriving DecidableEq, Repr

structure Config where
  parse : ParseOptions
  format : OutputFormat
  showIds : Bool
deriving DecidableEq, Repr

inductive FileState where
  | missing
  | notText
  | text (content : Text)

def FileState.ofBytes (bytes : ByteArray) : FileState :=
  match String.fromUTF8? bytes with
  | some content => .text content.toList
  | none => .notText

namespace Config

def standard : Config := ⟨.lenient, .text, false⟩

-- A table or an array in the order of the names. No other name may occur; what an array holds
-- beyond the names does not count.
def settings? (names : List Text) : Toml → Option (Text → Option Toml)
  | .table _ entries =>
    if entries.all fun entry => names.contains entry.1 then some (Keyed.lookup · entries) else none
  | .array items => some fun name => items[names.idxOf name]?
  | .tables items => some fun name => (items[names.idxOf name]?).map (.table .header)
  | _ => none

def flag? (fallback : Bool) : Option Toml → Option Bool
  | none => some fallback
  | some (.bool value) => some value
  | some _ => none

def formatOf? (name : Text) : Option OutputFormat :=
  if name = "text".toList then some .text
  else if name = "json".toList then some .json
  else none

def isEmpty : Toml → Bool
  | .table _ entries => entries.isEmpty
  | .array items => items.isEmpty
  | .tables items => items.isEmpty
  | _ => false

-- A format is a text, or a table whose only name it is, with nothing inside.
def format? : Option Toml → Option OutputFormat
  | none => some .text
  | some (.string name) => formatOf? name
  | some (.table _ [(name, inside)]) => if isEmpty inside then formatOf? name else none
  | some _ => none

def parseName : Text := "parse".toList
def outputName : Text := "output".toList
def strictReferencesName : Text := "strict_references".toList
def allowPrologName : Text := "allow_prolog".toList
def formatName : Text := "format".toList
def showIdsName : Text := "show_ids".toList

def parseOptions? (table : Toml) : Option ParseOptions := do
  let setting ← settings? [strictReferencesName, allowPrologName] table
  let strict ← flag? ParseOptions.lenient.strictReferences (setting strictReferencesName)
  let prolog ← flag? ParseOptions.lenient.allowProlog (setting allowPrologName)
  return ⟨strict, prolog⟩

def output? (table : Toml) : Option (OutputFormat × Bool) := do
  let setting ← settings? [formatName, showIdsName] table
  let format ← format? (setting formatName)
  let showIds ← flag? false (setting showIdsName)
  return (format, showIds)

def ofToml? (table : Toml) : Option Config := do
  let setting ← settings? [parseName, outputName] table
  let parse ← parseOptions? ((setting parseName).getD (.table .header []))
  let (format, showIds) ← output? ((setting outputName).getD (.table .header []))
  return ⟨parse, format, showIds⟩

def ofText? (source : Text) : Option Config := do
  let entries ← Toml.read source
  ofToml? (.table .header entries)

inductive Failure where
  | reading (file : Text)
  | parsing (file : Text)
deriving DecidableEq, Repr

def Failure.message : Failure → String
  | reading file => s!"reading {file.shown}"
  | parsing file => s!"parsing {file.shown}"

def load (files : Text → FileState) (file : Text) : Except Failure Config :=
  match files file with
  | .text content =>
    match ofText? content with
    | some config => .ok config
    | none => .error (.parsing file)
  | _ => .error (.reading file)

def fileName : Text := "pset.toml".toList

-- The last directory above a relative one is the empty text. An empty part between the slashes is
-- no step, nor is a lone dot behind the first part.
def ancestors (directory : Text) : List Text :=
  let parts := directory.splitOn '/'
  let steps := (List.range parts.length).filter fun index =>
    let part := parts.getD index []
    part != [] && (index == 0 || part != ['.'])
  if steps = [] then [directory]
  else
    directory :: steps.dropLast.reverse.map (fun index => Text.joined ['/'] (parts.take (index + 1))) ++
      [if directory.head? = some '/' then ['/'] else []]

def inDirectory (directory file : Text) : Text :=
  if directory = [] then file
  else if directory.getLast? = some '/' then directory ++ file
  else directory ++ '/' :: file

def isThere : FileState → Bool
  | .missing => false
  | _ => true

-- An explicit file counts before all others; without any file the standard configuration holds.
def resolve (files : Text → FileState) (explicit : Option Text) (start : Text) :
    Except Failure Config :=
  match explicit with
  | some file => load files file
  | none =>
    match ((ancestors start).map (inDirectory · fileName)).find? fun file => isThere (files file) with
    | some file => load files file
    | none => .ok standard

end Config
end ParamStore

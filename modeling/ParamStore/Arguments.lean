import ParamStore.Command

set_option autoImplicit false

namespace ParamStore

structure Arguments where
  config : Option String
  command : Command
  file : String

namespace Arguments

structure Words where
  config : Option String
  json : Bool
  tablesOnly : Bool
  type : Option ValueType
  plain : List String

def valueType? (name : String) : Option ValueType :=
  [("bool", .bool), ("int", .int), ("float", .float), ("string", .string), ("pset", .set)].lookup name

def words? : List String → Option Words
  | [] => some ⟨none, false, false, none, []⟩
  | "--config" :: file :: rest => (words? rest).map ({ · with config := some file })
  | "--type" :: name :: rest => do
    let type ← valueType? name
    let words ← words? rest
    return { words with type := some type }
  | "--json" :: rest => (words? rest).map ({ · with json := true })
  | "--psets" :: rest => (words? rest).map ({ · with tablesOnly := true })
  | "-v" :: rest => words? rest
  | "-vv" :: rest => words? rest
  | "--verbose" :: rest => words? rest
  | word :: rest =>
    if word.startsWith "-" then none
    else (words? rest).map fun words => { words with plain := word :: words.plain }

def ofWords (words : Words) : Option Arguments :=
  match words.plain with
  | ["parse", file] => some ⟨words.config, .parse words.json, file⟩
  | ["get", file, path] => some ⟨words.config, .get path.toList words.type, file⟩
  | ["keys", file] => some ⟨words.config, .keys words.tablesOnly, file⟩
  | ["id", file] => some ⟨words.config, .id none, file⟩
  | ["id", file, path] => some ⟨words.config, .id (some path.toList), file⟩
  | ["check", file] => some ⟨words.config, .check, file⟩
  | _ => none

def ofList? (words : List String) : Option Arguments := do
  let sorted ← words? words
  ofWords sorted

def usage : String :=
  "usage: pset [--config FILE] (parse FILE [--json] | get FILE PATH [--type TYPE] | " ++
    "keys FILE [--psets] | id FILE [PATH] | check FILE)"

end Arguments
end ParamStore

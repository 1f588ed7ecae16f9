import ParamStore.Arguments

set_option autoImplicit false

namespace ParamStore

def readFile (file : String) : IO FileState := do
  try
    let bytes ← IO.FS.readBinFile file
    return FileState.ofBytes bytes
  catch _ => return .missing

def readFiles (names : List Text) : IO (Text → FileState) := do
  let states ← names.mapM fun name => do
    let state ← readFile name.shown
    return (name, state)
  return fun name => (states.lookup name).getD .missing

def readConfig (explicit : Option Text) : IO (Except Config.Failure Config) := do
  let start ← IO.currentDir
  let directory := (toString start).toList
  let candidates := (Config.ancestors directory).map (Config.inDirectory · Config.fileName)
  let files ← readFiles (explicit.toList ++ candidates)
  return Config.resolve files explicit directory

def printReport (command : Command) (report : Report) : IO UInt32 := do
  for note in report.notes do
    IO.eprintln note
  match report.outcome with
  | .error failure =>
    IO.eprintln s!"error: {failure}"
    return 1
  | .ok text =>
    if command.prints text then IO.println text
    return 0

def runTool (arguments : List String) : IO UInt32 := do
  match Arguments.ofList? arguments with
  | none =>
    IO.eprintln Arguments.usage
    return 2
  | some given =>
    match ← readConfig (given.config.map String.toList) with
    | .error failure =>
      IO.eprintln s!"error: {failure.message}"
      return 1
    | .ok config =>
      let state ← readFile given.file
      printReport given.command (given.command.run config given.file state)

end ParamStore

def main (arguments : List String) : IO UInt32 := ParamStore.runTool arguments

import ParamStore.Document.Parser
import ParamStore.ParameterSet

set_option autoImplicit false

namespace ParamStore

structure Tally where
  bindings : Nat
  prologSkipped : Nat
  unnamedSkipped : Nat
  tables : Nat
deriving DecidableEq, Repr

structure Progress where
  store : Store
  tally : Tally

namespace Progress

def start (store : Store) : Progress := ⟨store, ⟨0, 0, 0, 0⟩⟩

def countBinding (progress : Progress) : Progress :=
  { progress with tally.bindings := progress.tally.bindings + 1 }

def countProlog (progress : Progress) : Progress :=
  { progress with tally.prologSkipped := progress.tally.prologSkipped + 1 }

def countUnnamed (progress : Progress) : Progress :=
  { progress with tally.unnamedSkipped := progress.tally.unnamedSkipped + 1 }

-- Tables inside are stored before the table itself.
def internTable (progress : Progress) (entries : Entries) : Progress × Identifier :=
  let (id, store) := progress.store.intern entries
  (⟨store, { progress.tally with tables := progress.tally.tables + 1 }⟩, id)

end Progress

namespace Value

mutual
-- What was stored stays when a later part fails.
def encode : Value → Progress → Progress × Except Error Cell
  | .nil, progress => (progress, .ok .nil)
  | .bool value, progress => (progress, .ok (.of .bool (encodeBool value)))
  | .number value, progress => (progress, .ok (.of (.ofNumber value.kind) value.text))
  | .complex re im, progress => (progress, .ok (.of .complex (Complex.join re.text im.text)))
  | .string text, progress => (progress, .ok (.of .string text))
  | .sequence items, progress =>
    let (last, cells) := encodeItems items progress
    (last, cells.map .sequence)
  | .table entries, progress =>
    match encodeEntries .empty entries progress with
    | (last, .error error) => (last, .error error)
    | (last, .ok inside) =>
      let (stored, id) := last.internTable inside
      (stored, .ok (.table id))
-- Sequences keep all items, flagged or not.
def encodeItems : List (Flagged Value) → Progress → Progress × Except Error (List Cell)
  | [], progress => (progress, .ok [])
  | ⟨_, value⟩ :: tail, progress =>
    match value.encode progress with
    | (last, .error error) => (last, .error error)
    | (next, .ok first) =>
      let (last, rest) := encodeItems tail next
      (last, rest.map (first :: ·))
def encodeEntries (before : Entries) :
    List (Text × Flagged Value) → Progress → Progress × Except Error Entries
  | [], progress => (progress, .ok before)
  | (key, ⟨inProlog, value⟩) :: tail, progress =>
    if inProlog then encodeEntries before tail progress.countProlog
    else
      match value.encode progress with
      | (last, .error error) => (last, .error error)
      | (next, .ok cell) =>
        match before.insert next.store key cell with
        | .error error => (next, .error error)
        | .ok after => encodeEntries after tail next
end

end Value

def encodeBindings (before : Entries) : List Binding → Progress → Progress × Except Error Entries
  | [], progress => (progress, .ok before)
  | ⟨none, _, _⟩ :: tail, progress => encodeBindings before tail progress.countUnnamed
  | ⟨some name, item, _⟩ :: tail, progress =>
    if item.inProlog then encodeBindings before tail progress.countProlog
    else
      match item.value.encode progress with
      | (last, .error error) => (last, .error error)
      | (next, .ok cell) =>
        match before.insert next.store name cell with
        | .error error => (next, .error error)
        | .ok after => encodeBindings after tail next.countBinding

namespace Document

def materialize (document : Document) (depot : Depot) (home : Nat) :
    Depot × Except Error (ParameterSet × Tally) :=
  let (last, entries) := encodeBindings .empty document.bindings (.start (depot.store home))
  (depot.setStore home last.store, entries.map fun entries => (⟨home, entries, none⟩, last.tally))

end Document

namespace Table

def materialize (table : Table) (depot : Depot) (home : Nat) :
    Depot × Except Error ParameterSet :=
  let (last, entries) := Value.encodeEntries .empty table.entries (.start (depot.store home))
  (depot.setStore home last.store, entries.map fun entries => ⟨home, entries, none⟩)

end Table

def materializeSource (options : ParseOptions) (source : Text) (depot : Depot) (home : Nat) :
    Depot × Except Error ParameterSet :=
  match Document.read options source with
  | .error error => (depot, .error error)
  | .ok document =>
    let (filled, outcome) := document.materialize depot home
    (filled, outcome.map Prod.fst)

end ParamStore

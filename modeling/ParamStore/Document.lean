import ParamStore.Table

set_option autoImplicit false

namespace ParamStore

structure Binding where
  name : Option Text
  item : Flagged Value
  position : Position
deriving DecidableEq

structure DeferredReference where
  reference : Text
  place : External
  position : Position
deriving DecidableEq, Repr

structure Diagnostic where
  position : Position
  reference : Text
deriving DecidableEq, Repr

namespace Diagnostic

def message (diagnostic : Diagnostic) : String := unresolvedMessage diagnostic.reference

def line (diagnostic : Diagnostic) : String :=
  s!"{diagnostic.position.text.shown}: {diagnostic.message}"

end Diagnostic

structure Document where
  bindings : List Binding
  diagnostics : List Diagnostic
  deferred : List DeferredReference
deriving DecidableEq

namespace Document

def empty : Document := ⟨[], [], []⟩

def versions (document : Document) (name : Text) : List (Flagged Value) :=
  (document.bindings.filter fun binding => binding.name == some name).map Binding.item

def lookup (document : Document) (name : Text) : Option (Flagged Value) :=
  (document.versions name).getLast?

def lookupVersion (document : Document) (name : Text) (number : Nat) : Option (Flagged Value) :=
  (document.versions name)[number]?

-- A name stands where it was first bound.
def names (document : Document) : List Text :=
  (document.bindings.filterMap Binding.name).foldl
    (fun seen name => if seen.contains name then seen else seen ++ [name]) []

def toTable (document : Document) : Table :=
  document.bindings.foldl
    (fun table binding =>
      match binding.name with
      | none => table
      | some name => table.set name binding.item)
    Table.empty

end Document
end ParamStore

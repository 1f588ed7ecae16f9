import ParamStore.Document
import ParamStore.Token.Lexer

set_option autoImplicit false

namespace ParamStore

structure Reference where
  name : Text
  version : Option Nat
  steps : List Segment
  place : Option External
deriving DecidableEq, Repr

structure Notes where
  diagnostics : List Diagnostic
  deferred : List DeferredReference
deriving DecidableEq, Repr

namespace Notes

def none : Notes := ⟨[], []⟩

def append (first second : Notes) : Notes :=
  ⟨first.diagnostics ++ second.diagnostics, first.deferred ++ second.deferred⟩

instance : Append Notes := ⟨append⟩

end Notes

structure Scope where
  document : Document
  strict : Bool
  stop : Position

namespace Reference

def versionText : Option Nat → Text
  | none => []
  | some number => '(' :: Text.ofNat number ++ [')']

def text (reference : Reference) : Text :=
  reference.name ++ versionText reference.version ++ reference.steps.flatMap Segment.step

def base? (document : Document) (reference : Reference) : Option (Flagged Value) :=
  match reference.version with
  | none => document.lookup reference.name
  | some number => document.lookupVersion reference.name number

def deferredNotes (position : Position) (reference : Reference) : Notes :=
  match reference.place with
  | none => .none
  | some place => ⟨[], [⟨reference.text, place, position⟩]⟩

def locate (position : Position) (text : Text) : Error → Error
  | .cantFind _ => .cantFind (text ++ [' ', '(', 'a', 't', ' '] ++ position.text ++ [')'])
  | .typeMismatch cause => .typeMismatch (.inReference position text cause)
  | other => other

theorem locate_kind (position : Position) (text : Text) (error : Error) :
    (locate position text error).kind = error.kind := by
  cases error <;> rfl

def resolve (scope : Scope) (position : Position) (reference : Reference) :
    Except Error (Value × Notes) :=
  match reference.base? scope.document with
  | some base =>
    match Value.follow reference.steps base with
    | .ok item => .ok (item.value, reference.deferredNotes position)
    | .error error => .error (locate position reference.text error)
  | none =>
    if reference.place.isSome then .ok (.nil, reference.deferredNotes position)
    else if scope.strict then .error (.parse position (.unresolved reference.text))
    else .ok (.nil, ⟨[⟨position, reference.text⟩], []⟩)

end Reference
end ParamStore

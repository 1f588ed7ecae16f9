import ParamStore.Text

set_option autoImplicit false

namespace ParamStore

structure Position where
  line : Nat
  column : Nat
deriving DecidableEq, Repr

namespace Position

def start : Position := ⟨1, 1⟩

def next (position : Position) (c : Char) : Position :=
  if c = '\n' then ⟨position.line + 1, 1⟩ else ⟨position.line, position.column + 1⟩

def after (position : Position) (text : Text) : Position := text.foldl next position

def text (position : Position) : Text :=
  Text.ofNat position.line ++ ':' :: Text.ofNat position.column

end Position
end ParamStore

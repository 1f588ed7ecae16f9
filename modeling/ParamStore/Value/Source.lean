import ParamStore.Value

set_option autoImplicit false

namespace ParamStore
namespace Value

-- Without quotes a string would read as a reference.
def quotedSource (text : Text) : Text := if text.head? = some '"' then text else Text.quoted text

def separator : Text := [',', ' ']

mutual
def source : Value → Text
  | .nil => nilWord
  | .bool value => encodeBool value
  | .number value => value.text
  | .complex re im => Complex.join re.text im.text
  | .string text => quotedSource text
  | .sequence items => '[' :: Text.joined separator (itemSources items) ++ [']']
  | .table entries => '{' :: Text.joined separator (entrySources entries) ++ ['}']
def itemSources : List (Flagged Value) → List Text
  | [] => []
  | ⟨_, value⟩ :: tail => source value :: itemSources tail
def entrySources : List (Text × Flagged Value) → List Text
  | [] => []
  | (key, ⟨_, value⟩) :: tail => (key ++ ':' :: ' ' :: source value) :: entrySources tail
end

end Value

def Table.source (table : Table) : Text := (Value.table table.entries).source

end ParamStore

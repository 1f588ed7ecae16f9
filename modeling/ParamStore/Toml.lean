import ParamStore.Keyed

set_option autoImplicit false

namespace ParamStore

/-- How a table came to be: by its own header, on the way to the header of a table inside it, on the way
of a dotted key, or in braces, which hold all of it. This says what may still be added. -/
inductive Origin where
  | header
  | passed
  | dotted
  | braces
deriving DecidableEq, Repr

-- Numbers and dates are left out, since no setting takes one. `tables` holds what stands under one header
-- in double brackets, in source order.
inductive Toml where
  | string (text : Text)
  | bool (value : Bool)
  | array (items : List Toml)
  | table (origin : Origin) (entries : List (Text × Toml))
  | tables (items : List (List (Text × Toml)))

namespace Toml

-- Changes the table that a path leads to. Tables that are missing on the way are made, and of
-- tables in a list the last is meant. Nothing goes into braces, and no dotted key into a table with
-- a header.
def reach (via : Origin) (change : Origin → Keyed Toml → Option (Keyed Toml)) :
    List Text → Origin → Keyed Toml → Option (Keyed Toml)
  | [], origin, entries => change origin entries
  | key :: rest, _, entries =>
    match Keyed.lookup key entries with
    | none =>
      (reach via change rest via []).map fun made => Keyed.put key (.table via made) entries
    | some (.table origin inner) =>
      if origin = .braces ∨ (via = .dotted ∧ origin = .header) then none
      else
        (reach via change rest origin inner).map fun changed =>
          Keyed.put key (.table origin changed) entries
    | some (.tables items) =>
      match items.getLast? with
      | none => none
      | some last =>
        (reach via change rest .header last).map fun changed =>
          Keyed.put key (.tables (items.dropLast ++ [changed])) entries
    | some _ => none

-- A header may come after the headers of tables inside its own, and only once.
def openTable (key : Text) (_ : Origin) (entries : Keyed Toml) : Option (Keyed Toml) :=
  match Keyed.lookup key entries with
  | none => some (Keyed.put key (.table .header []) entries)
  | some (.table .passed inner) => some (Keyed.put key (.table .header inner) entries)
  | some _ => none

def openListed (key : Text) (_ : Origin) (entries : Keyed Toml) : Option (Keyed Toml) :=
  match Keyed.lookup key entries with
  | none => some (Keyed.put key (.tables [[]]) entries)
  | some (.tables items) => some (Keyed.put key (.tables (items ++ [[]])) entries)
  | some _ => none

def fill (path : List Text) (key : Text) (value : Toml) (origin : Origin) (entries : Keyed Toml) :
    Option (Keyed Toml) :=
  if (path ≠ [] ∧ origin ≠ .dotted) ∨ (Keyed.lookup key entries).isSome then none
  else some (Keyed.put key value entries)

def assign (entries : Keyed Toml) (path : List Text) (key : Text) (value : Toml) :
    Option (Keyed Toml) :=
  reach .dotted (fill path key value) path .header entries

inductive Statement where
  | header (path : List Text) (key : Text)
  | listed (path : List Text) (key : Text)
  | assignment (path : List Text) (key : Text) (value : Toml)

structure Draft where
  root : Keyed Toml
  here : List Text

def Draft.empty : Draft := ⟨[], []⟩

def Draft.add (draft : Draft) : Statement → Option Draft
  | .header path key =>
    (reach .passed (openTable key) path .header draft.root).map (⟨·, path ++ [key]⟩)
  | .listed path key =>
    (reach .passed (openListed key) path .header draft.root).map (⟨·, path ++ [key]⟩)
  | .assignment path key value =>
    (reach .passed (fun _ entries => assign entries path key value) draft.here .header
      draft.root).map (⟨·, draft.here⟩)

end Toml
end ParamStore

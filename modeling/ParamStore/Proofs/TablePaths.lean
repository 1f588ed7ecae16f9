import ParamStore.Proofs.FilledTables
import ParamStore.Proofs.Outcome

set_option autoImplicit false

namespace ParamStore
namespace Value

theorem follow_step (next : Segment) (rest : List Segment) (item inner : Flagged Value)
    (stepped : item.value.step next = .ok inner) : follow (next :: rest) item = follow rest inner := by
  rw [follow, stepped]
  rfl

theorem follow_stuck (next : Segment) (rest : List Segment) (item : Flagged Value) (error : Error)
    (stuck : item.value.step next = .error error) : follow (next :: rest) item = .error error := by
  rw [follow, stuck]
  rfl

theorem follow_through (front more : List Segment) (item middle : Flagged Value)
    (reached : follow front item = .ok middle) : follow (front ++ more) item = follow more middle := by
  induction front generalizing item with
  | nil =>
    cases reached
    rfl
  | cons segment rest ih =>
    obtain ⟨inner, stepped, deeper⟩ := (Outcome.bind_ok _ _ _).mp reached
    rw [List.cons_append, follow_step segment _ item inner stepped]
    exact ih inner deeper

def behind (slot : Option (Flagged Value)) (segment : Segment) : Option (Flagged Value) :=
  slot.bind fun item => (item.value.step segment).toOption

def reach (slot : Option (Flagged Value)) (segments : List Segment) : Option (Flagged Value) :=
  segments.foldl behind slot

theorem behind_entry (flag : Bool) (entries : List (Text × Flagged Value)) (key : Text) :
    behind (some ⟨flag, .table entries⟩) (.key key) = Keyed.lookup key entries := by
  simp only [behind, Option.bind_some, step, member]
  cases Keyed.lookup key entries <;> rfl

theorem behind_item (flag : Bool) (items : List (Flagged Value)) (index : Nat) :
    behind (some ⟨flag, .sequence items⟩) (.index index) = items[index]? := by
  simp only [behind, Option.bind_some, step, element]
  cases items[index]? <;> rfl

theorem behind_ok (item : Flagged Value) (segment : Segment) (found : Flagged Value) :
    behind (some item) segment = some found ↔ item.value.step segment = .ok found := by
  rw [behind, Option.bind_some]
  cases item.value.step segment <;> simp [Except.toOption]

theorem reach_nothing (segments : List Segment) : reach none segments = none := by
  induction segments with
  | nil => rfl
  | cons segment rest ih => exact ih

theorem reach_ok (segments : List Segment) (item found : Flagged Value) :
    reach (some item) segments = some found ↔ follow segments item = .ok found := by
  induction segments generalizing item with
  | nil => simp [reach, follow]
  | cons segment rest ih =>
    change reach (behind (some item) segment) rest = some found ↔ _
    cases stepped : item.value.step segment with
    | ok inner =>
      rw [(behind_ok item segment inner).mpr stepped, ih inner, follow_step segment rest item inner stepped]
    | error error =>
      have nothing : behind (some item) segment = none := by
        simp only [behind, Option.bind_some, stepped]
        rfl
      rw [nothing, reach_nothing, follow_stuck segment rest item error stepped]
      exact ⟨nofun, nofun⟩

end Value

namespace Table

-- Paths start at the table as a whole, so the root is a step like all others.
def whole (table : Table) : Flagged Value := ⟨false, .table table.entries⟩

theorem follow_whole (table : Table) (path : Path) :
    table.follow path = Value.follow path.segments table.whole := by
  rw [follow, get?, Path.segments, Value.follow, whole, Value.step, Value.member]
  cases Keyed.lookup path.root table.entries <;> rfl

theorem find_whole (table : Table) (query : Text) (path : Path) (read : Path.read query = .ok path) :
    table.find query = (Value.follow path.segments table.whole).mapError (Error.missingAt query) := by
  rw [find, read, ← follow_whole]
  rfl

theorem find_ok (table : Table) (query : Text) (path : Path) (read : Path.read query = .ok path)
    (found : Flagged Value) :
    table.find query = .ok found ↔ Value.reach (some table.whole) path.segments = some found := by
  rw [table.find_whole query path read, Value.reach_ok, Outcome.map_error_ok]

end Table
end ParamStore

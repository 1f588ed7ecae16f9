import ParamStore.Proofs.InsertedPaths

set_option autoImplicit false

namespace ParamStore
namespace Value

-- Where nothing is there will be an empty container.
def takes : Option (Flagged Value) → Segment → Bool
  | none, .key _ => true
  | none, .index index => index == 0
  | some ⟨_, .table _⟩, .key _ => true
  | some ⟨_, .sequence items⟩, .index index => decide (index ≤ items.length)
  | some _, _ => false

def opens : Option (Flagged Value) → List Segment → Bool
  | _, [] => true
  | slot, next :: rest => takes slot next && opens (behind slot next) rest

def itemCount : Option (Flagged Value) → Nat
  | some ⟨_, .sequence items⟩ => items.length
  | _ => 0

def appendsEarly : Option (Flagged Value) → List Segment → Bool
  | slot, next :: later :: rest =>
    next == .index (itemCount slot) || appendsEarly (behind slot next) (later :: rest)
  | _, _ => false

variable (path : Text) (item : Flagged Value)

theorem item_added (rest : List Segment) (flag : Bool) (items : List (Flagged Value)) (index : Nat)
    (bound : index ≤ items.length) :
    (fill path item (.index index :: rest) (some ⟨flag, .sequence items⟩)).2 =
      if rest ≠ [] ∧ index = items.length then .error (.cantFind path)
      else (fill path item rest items[index]?).2 := by
  cases found : items[index]? with
  | some slot =>
    have inside := (List.getElem?_eq_some_iff.mp found).1
    have early : ¬ (rest ≠ [] ∧ index = items.length) := fun last => Nat.ne_of_lt inside last.2
    rw [fill_present path item index rest flag items slot found, if_neg early]
  | none =>
    have beyond := List.getElem?_eq_none_iff.mp found
    have last : index = items.length := by omega
    simp only [fill, Option.getD_some, place_absent path item rest index items found]
    by_cases ends : rest = []
    · subst ends
      simp [last]
    · simp [ends, last]

theorem fill_takes (next : Segment) (rest : List Segment) (slot : Option (Flagged Value))
    (taken : takes slot next = true) :
    (fill path item (next :: rest) slot).2 =
      if rest ≠ [] ∧ next = .index (itemCount slot) then .error (.cantFind path)
      else (fill path item rest (behind slot next)).2 := by
  cases next with
  | key key =>
    rw [if_neg (by simp)]
    cases slot with
    | none => rw [fill_new_entry]; rfl
    | some old =>
      obtain ⟨flag, value⟩ := old
      cases value with
      | table entries => rw [fill_entry, behind_entry]
      | _ => cases taken
  | index index =>
    cases slot with
    | none =>
      simp only [Segment.index.injEq]
      exact item_added path item rest item.inProlog [] index (Nat.le_of_eq (eq_of_beq taken))
    | some old =>
      obtain ⟨flag, value⟩ := old
      cases value with
      | sequence items =>
        rw [item_added path item rest flag items index (of_decide_eq_true taken), behind_item]
        simp only [Segment.index.injEq, itemCount]
      | _ => cases taken

theorem fill_taken (next : Segment) (rest : List Segment) (slot : Option (Flagged Value))
    (succeeds : (fill path item (next :: rest) slot).2 = .ok ()) : takes slot next = true := by
  obtain ⟨changed, placed, _⟩ := fill_step path item next rest slot _ (Prod.ext rfl succeeds)
  rcases place_cases path item rest next _ changed placed with
    ⟨key, entries, _, rfl, isTable, _⟩ | ⟨index, items, _, rfl, isSequence, _, bound, _⟩
  · cases slot with
    | none => rfl
    | some old =>
      obtain ⟨flag, value⟩ := old
      cases isTable
      rfl
  · cases slot with
    | none =>
      cases isSequence
      exact beq_iff_eq.mpr (Nat.le_zero.mp bound)
    | some old =>
      obtain ⟨flag, value⟩ := old
      cases isSequence
      exact decide_eq_true bound

-- The induction is on the steps: each is taken, and if one goes behind a last item no other follows it.
theorem fill_ok_iff (segments : List Segment) (slot : Option (Flagged Value)) :
    (fill path item segments slot).2 = .ok () ↔
      opens slot segments = true ∧ appendsEarly slot segments = false := by
  induction segments generalizing slot with
  | nil => simp [fill, opens, appendsEarly]
  | cons next rest ih =>
    by_cases taken : takes slot next = true
    · rw [fill_takes path item next rest slot taken, opens, taken, Bool.true_and]
      cases rest with
      | nil => simp [fill, opens, appendsEarly]
      | cons later rest =>
        rw [appendsEarly]
        by_cases early : next = .index (itemCount slot) <;> simp [early, ih]
    · have refused : (fill path item (next :: rest) slot).2 ≠ .ok () := fun succeeds =>
        taken (fill_taken path item next rest slot succeeds)
      simp [refused, opens, taken]

theorem fill_early (segments : List Segment) (slot : Option (Flagged Value))
    (isOpen : opens slot segments = true) (early : appendsEarly slot segments = true) :
    (fill path item segments slot).2 = .error (.cantFind path) := by
  induction segments generalizing slot with
  | nil => cases early
  | cons next rest ih =>
    obtain ⟨taken, further⟩ := (Bool.and_eq_true _ _).mp isOpen
    rw [fill_takes path item next rest slot taken]
    cases rest with
    | nil => cases early
    | cons later rest =>
      by_cases here : next = .index (itemCount slot)
      · simp [here]
      · have deeper := ((Bool.or_eq_true _ _).mp early).resolve_left fun same => here (eq_of_beq same)
        rw [if_neg fun both => here both.2]
        exact ih (behind slot next) further deeper

end Value

namespace Table

def opens (table : Table) (path : Path) : Bool := Value.opens (some table.whole) path.segments

def appendsEarly (table : Table) (path : Path) : Bool :=
  Value.appendsEarly (some table.whole) path.segments

-- Where an open path appends before its last step, nothing can be found behind that step.
theorem insert_creates (table : Table) (path : Text) (parsed : Path)
    (read : Path.read path = .ok parsed) (item : Flagged Value) :
    ((table.insert path item).2 = .ok () ↔
        table.opens parsed = true ∧ table.appendsEarly parsed = false) ∧
      ((table.insert path item).2 = .ok () → (table.insert path item).1.find path = .ok item) ∧
      (table.opens parsed = true → table.appendsEarly parsed = true →
        (table.insert path item).2 = .error (.cantFind path)) := by
  have filled := table.insert_whole path parsed read item
  have outcome := congrArg Prod.snd filled
  refine ⟨?_, ?_, ?_⟩
  · rw [← outcome]
    exact Value.fill_ok_iff path item parsed.segments _
  · intro succeeds
    rw [succeeds] at filled
    exact ((table.insert path item).1.find_ok path parsed read item).mpr
      (Value.fill_reached path item parsed.segments _ _ filled)
  · intro isOpen early
    rw [← outcome]
    exact Value.fill_early path item parsed.segments _ isOpen early

theorem open_insert_fails :
    Path.read ['s', '[', '0', ']', '.', 'x'] = .ok ⟨['s'], [.index 0, .key ['x']]⟩ ∧
      Table.empty.opens ⟨['s'], [.index 0, .key ['x']]⟩ = true ∧
      (Table.empty.insert ['s', '[', '0', ']', '.', 'x'] ⟨false, .nil⟩).2 =
        .error (.cantFind ['s', '[', '0', ']', '.', 'x']) := by
  refine ⟨?_, ?_, ?_⟩ <;> with_unfolding_all rfl

theorem insert_creates_guarded :
    ∃ parsed beyond, Path.read ['a', '.', 's', '[', '1', ']'] = .ok parsed ∧
      Path.read ['a', '.', 's', '[', '1', ']', '.', 'x'] = .ok beyond ∧
      (guarded.insert ['a', '.', 's', '[', '1', ']'] ⟨false, .nil⟩).1.find ['a', '.', 's', '[', '1', ']'] =
        .ok ⟨false, .nil⟩ ∧
      (guarded.insert ['a', '.', 's', '[', '1', ']', '.', 'x'] ⟨false, .nil⟩).2 =
        .error (.cantFind ['a', '.', 's', '[', '1', ']', '.', 'x']) := by
  have read : Path.read ['a', '.', 's', '[', '1', ']'] = .ok ⟨['a'], [.key ['s'], .index 1]⟩ := by
    with_unfolding_all rfl
  have readBeyond : Path.read ['a', '.', 's', '[', '1', ']', '.', 'x'] =
      .ok ⟨['a'], [.key ['s'], .index 1, .key ['x']]⟩ := by with_unfolding_all rfl
  obtain ⟨succeeds, found, _⟩ := insert_creates guarded _ _ read ⟨false, .nil⟩
  obtain ⟨_, _, fails⟩ := insert_creates guarded _ _ readBeyond ⟨false, .nil⟩
  exact ⟨_, _, read, readBeyond, found (succeeds.mpr ⟨by decide, by decide⟩), fails (by decide) (by decide)⟩

end Table
end ParamStore

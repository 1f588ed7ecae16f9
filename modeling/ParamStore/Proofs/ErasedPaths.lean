import ParamStore.Proofs.TablePaths

set_option autoImplicit false

namespace ParamStore
namespace Value

theorem step_entry (entries others : List (Text × Flagged Value)) (segment : Segment)
    (same : ∀ key, segment = .key key → Keyed.lookup key entries = Keyed.lookup key others) :
    (table entries).step segment = (table others).step segment := by
  cases segment with
  | key key => simp only [step, member, same key rfl]
  | index index => rfl

theorem step_item (items others : List (Flagged Value)) (segment : Segment)
    (same : ∀ index, segment = .index index → items[index]? = others[index]?) :
    (sequence items).step segment = (sequence others).step segment := by
  cases segment with
  | key key => rfl
  | index index => simp only [step, element, same index rfl]

theorem remove_inside (next later : Segment) (rest : List Segment) (target after : Value)
    (done : remove? (later :: rest) next target = some after) :
    ∃ slot inner, target.step next = .ok slot ∧ remove? rest later slot.value = some inner ∧
      after.step next = .ok ⟨slot.inProlog, inner⟩ ∧
      ∀ other, other ≠ next → after.step other = target.step other := by
  cases next with
  | key key =>
    cases target with
    | table entries =>
      rw [remove?] at done
      cases found : Keyed.lookup key entries with
      | none => simp [found] at done
      | some slot =>
        simp only [found, Option.map_eq_some_iff] at done
        obtain ⟨inner, below, rfl⟩ := done
        refine ⟨slot, inner, by simp only [step, member, found], below, ?_, fun other different => ?_⟩
        · simp only [step, member, Keyed.lookup_put, if_pos]
        · apply step_entry
          rintro wanted rfl
          rw [Keyed.lookup_put, if_neg fun same => different (congrArg Segment.key same)]
    | _ => cases done
  | index index =>
    cases target with
    | sequence items =>
      rw [remove?] at done
      cases found : items[index]? with
      | none => simp [found] at done
      | some slot =>
        simp only [found, Option.map_eq_some_iff] at done
        obtain ⟨inner, below, rfl⟩ := done
        have inside := (List.getElem?_eq_some_iff.mp found).1
        refine ⟨slot, inner, by simp only [step, element, found], below, ?_, fun other different => ?_⟩
        · simp only [step, element, List.getElem?_set_self inside]
        · apply step_item
          rintro wanted rfl
          exact List.getElem?_set_ne fun same => different (congrArg Segment.index same.symm)
    | _ => cases done

theorem remove_entry (key : Text) (target after : Value) (done : remove? [] (.key key) target = some after) :
    after.step (.key key) = .error (.cantFind key) ∧
      ∀ other, other ≠ .key key → after.step other = target.step other := by
  cases target with
  | table entries =>
    simp only [remove?, Option.ite_none_right_eq_some, Option.some.injEq] at done
    obtain ⟨_, rfl⟩ := done
    constructor
    · simp only [step, member, Keyed.lookup_remove, if_pos]
    · intro other different
      apply step_entry
      rintro wanted rfl
      rw [Keyed.lookup_remove, if_neg fun same => different (congrArg Segment.key same)]
  | _ => cases done

-- What lies behind the erased item moves up by one place. Only the name of what is missing changes with it.
theorem remove_item (index : Nat) (target after : Value)
    (done : remove? [] (.index index) target = some after) (query : Text) (place : Nat) :
    (place < index → after.step (.index place) = target.step (.index place)) ∧
      (index ≤ place → (after.step (.index place)).mapError (Error.missingAt query) =
        (target.step (.index (place + 1))).mapError (Error.missingAt query)) := by
  cases target with
  | sequence items =>
    simp only [remove?, Option.ite_none_right_eq_some, Option.some.injEq] at done
    obtain ⟨_, rfl⟩ := done
    simp only [step, element, List.getElem?_eraseIdx]
    constructor
    · intro before
      rw [if_pos before]
    · intro behind
      rw [if_neg (Nat.not_lt.mpr behind)]
      cases items[place + 1]? <;> rfl
  | _ => cases done

def removeAt? : List Segment → Flagged Value → Option (Flagged Value)
  | [], _ => none
  | next :: rest, item => (remove? rest next item.value).map (⟨item.inProlog, ·⟩)

theorem remove_front (front : List Segment) (last : Segment) (item made : Flagged Value)
    (done : removeAt? (front ++ [last]) item = some made) :
    ∃ holder after, follow front item = .ok holder ∧ remove? [] last holder.value = some after ∧
      follow front made = .ok ⟨holder.inProlog, after⟩ ∧
      ∀ others, ¬ front <+: others → ¬ others <+: front → follow others made = follow others item := by
  induction front generalizing item made with
  | nil =>
    obtain ⟨after, removed, rfl⟩ := Option.map_eq_some_iff.mp done
    exact ⟨item, after, rfl, removed, rfl, fun others notInside => absurd List.nil_prefix notInside⟩
  | cons next front ih =>
    obtain ⟨later, rest, split⟩ : ∃ later rest, front ++ [last] = later :: rest :=
      List.exists_cons_of_ne_nil (by simp)
    rw [List.cons_append, split] at done
    obtain ⟨after, removed, rfl⟩ := Option.map_eq_some_iff.mp done
    obtain ⟨slot, inner, stepped, below, changed, kept⟩ := remove_inside next later rest _ after removed
    have deeper : removeAt? (front ++ [last]) slot = some ⟨slot.inProlog, inner⟩ := by
      rw [split, removeAt?, below]
      rfl
    obtain ⟨holder, left, reached, taken, reachedAfter, beside⟩ := ih slot _ deeper
    refine ⟨holder, left, ?_, taken, ?_, fun others notInside notAbove => ?_⟩
    · rw [follow_step next front item slot stepped, reached]
    · rw [follow_step next front _ _ changed, reachedAfter]
    · cases others with
      | nil => exact absurd List.nil_prefix notAbove
      | cons other more =>
        by_cases same : other = next
        · subst same
          rw [List.cons_prefix_cons] at notInside notAbove
          rw [follow_step other more _ _ changed, follow_step other more item slot stepped]
          exact beside more (fun inside => notInside ⟨rfl, inside⟩) fun above => notAbove ⟨rfl, above⟩
        · simp only [follow, kept other same]

theorem remove_last_found (next : Segment) (target : Value) :
    (remove? [] next target).isSome = (target.step next).isOk := by
  cases next with
  | key key =>
    cases target with
    | table entries =>
      simp only [remove?, step, member]
      cases Keyed.lookup key entries <;> rfl
    | _ => rfl
  | index index =>
    cases target with
    | sequence items =>
      simp only [remove?, step, element]
      cases found : items[index]? with
      | some item => rw [if_pos (List.getElem?_eq_some_iff.mp found).1]; rfl
      | none => rw [if_neg (Nat.not_lt.mpr (List.getElem?_eq_none_iff.mp found))]; rfl
    | _ => rfl

theorem remove_step_found (next later : Segment) (rest : List Segment) (target : Value) :
    (remove? (later :: rest) next target).isSome =
      (target.step next).toOption.any fun slot => (remove? rest later slot.value).isSome := by
  cases next with
  | key key =>
    cases target with
    | table entries =>
      simp only [remove?, step, member]
      cases Keyed.lookup key entries <;> simp [Except.toOption]
    | _ => rfl
  | index index =>
    cases target with
    | sequence items =>
      simp only [remove?, step, element]
      cases items[index]? <;> simp [Except.toOption]
    | _ => rfl

theorem remove_found (next : Segment) (rest : List Segment) (item : Flagged Value) :
    (removeAt? (next :: rest) item).isSome = (follow (next :: rest) item).isOk := by
  rw [removeAt?, Option.isSome_map]
  induction rest generalizing next item with
  | nil =>
    rw [remove_last_found, follow]
    cases item.value.step next <;> rfl
  | cons later rest ih =>
    rw [remove_step_found]
    cases stepped : item.value.step next with
    | error error =>
      rw [follow_stuck next _ item error stepped]
      rfl
    | ok slot =>
      rw [follow_step next _ item slot stepped]
      exact ih later slot

theorem remove_gone (front : List Segment) (key : Text) (item made : Flagged Value)
    (done : removeAt? (front ++ [.key key]) item = some made) (more : List Segment) :
    follow (front ++ [.key key] ++ more) made = .error (.cantFind key) := by
  obtain ⟨holder, after, _, removed, reached, _⟩ := remove_front front (.key key) item made done
  have missing := (remove_entry key holder.value after removed).1
  rw [List.append_assoc, follow_through front _ made _ reached]
  exact follow_stuck (.key key) more _ _ missing

theorem remove_beside (front : List Segment) (key : Text) (item made : Flagged Value)
    (done : removeAt? (front ++ [.key key]) item = some made) (others : List Segment)
    (notInside : ¬ front ++ [.key key] <+: others) (notAbove : ¬ others <+: front ++ [.key key]) :
    follow others made = follow others item := by
  obtain ⟨holder, after, reached, removed, reachedAfter, beside⟩ :=
    remove_front front (.key key) item made done
  have kept := (remove_entry key holder.value after removed).2
  by_cases inside : front <+: others
  · obtain ⟨more, rfl⟩ := inside
    cases more with
    | nil => exact absurd (by simp) notAbove
    | cons other tail =>
      have different : other ≠ .key key := by
        intro same
        exact notInside ⟨tail, by simp [same]⟩
      rw [follow_through front _ made _ reachedAfter, follow_through front _ item holder reached]
      simp only [follow, kept other different]
  · by_cases above : others <+: front
    · exact absurd (above.trans (List.prefix_append _ _)) notAbove
    · exact beside others inside above

theorem remove_moves (front : List Segment) (index : Nat) (item made : Flagged Value)
    (done : removeAt? (front ++ [.index index]) item = some made) (query : Text) (place : Nat)
    (more : List Segment) :
    (place < index → follow (front ++ .index place :: more) made =
        follow (front ++ .index place :: more) item) ∧
      (index ≤ place →
        (follow (front ++ .index place :: more) made).mapError (Error.missingAt query) =
          (follow (front ++ .index (place + 1) :: more) item).mapError (Error.missingAt query)) := by
  obtain ⟨holder, after, reached, removed, reachedAfter, _⟩ :=
    remove_front front (.index index) item made done
  obtain ⟨same, moved⟩ := remove_item index holder.value after removed query place
  rw [follow_through front _ made _ reachedAfter, follow_through front _ item holder reached,
    follow_through front _ item holder reached]
  simp only [follow, Outcome.map_error_bind]
  constructor
  · intro before
    rw [same before]
  · intro behind
    rw [moved behind]

theorem remove_table (key : Text) (rest : List Segment) (entries : List (Text × Flagged Value))
    (after : Value) (done : remove? rest (.key key) (.table entries) = some after) :
    ∃ others, after = .table others := by
  cases rest with
  | nil =>
    simp only [remove?, Option.ite_none_right_eq_some, Option.some.injEq] at done
    exact ⟨_, done.2.symm⟩
  | cons next rest =>
    rw [remove?] at done
    split at done
    · cases done
    · obtain ⟨inner, _, rfl⟩ := Option.map_eq_some_iff.mp done
      exact ⟨_, rfl⟩

end Value

namespace Table

theorem erase_whole (table : Table) (path : Text) (parsed : Path) (read : Path.read path = .ok parsed) :
    Value.removeAt? parsed.segments table.whole =
      if (table.erase path).2 = true then some (table.erase path).1.whole else none := by
  simp only [erase, read, Path.segments, Value.removeAt?, whole]
  cases removed : Value.remove? parsed.rest (.key parsed.root) (.table table.entries) with
  | none => rfl
  | some after =>
    obtain ⟨others, rfl⟩ := Value.remove_table parsed.root parsed.rest table.entries after removed
    rfl

-- A text that leads neither to where the segments lead nor past it: it turns off, or is no path.
def TurnsOff (segments : List Segment) (query : Text) : Prop :=
  ∀ other, Path.read query = .ok other → ¬ segments <+: other.segments ∧ ¬ other.segments <+: segments

theorem find_turned (table edited : Table) (segments : List Segment)
    (beside : ∀ others, ¬ segments <+: others → ¬ others <+: segments →
      Value.follow others edited.whole = Value.follow others table.whole)
    (query : Text) (turns : TurnsOff segments query) : edited.find query = table.find query := by
  cases read : Path.read query with
  | error error =>
    rw [find, find, read]
    rfl
  | ok other =>
    obtain ⟨notInside, notAbove⟩ := turns other read
    rw [edited.find_whole query other read, table.find_whole query other read,
      beside other.segments notInside notAbove]

structure EntryGone (table edited : Table) (path : Path) : Prop where
  gone : ∀ query other, Path.read query = .ok other → path.segments <+: other.segments →
    edited.find query = .error (.cantFind query)
  beside : ∀ query, TurnsOff path.segments query → edited.find query = table.find query

structure ItemGone (table edited : Table) (front : List Segment) (index : Nat) : Prop where
  before : ∀ query other place more, Path.read query = .ok other →
    other.segments = front ++ .index place :: more → place < index →
      edited.find query = table.find query
  behind : ∀ query other place more, Path.read query = .ok other →
    other.segments = front ++ .index place :: more → index ≤ place →
      ∀ next : Path, next.segments = front ++ .index (place + 1) :: more →
        edited.find query = (table.follow next).mapError (Error.missingAt query) ∧
          ∀ later, Path.read later = .ok next →
            edited.find query = (table.find later).mapError (Error.missingAt query)
  beside : ∀ query, TurnsOff front query → edited.find query = table.find query

theorem find_error (table : Table) (query : Text) (path : Path) (read : Path.read query = .ok path)
    (key : Text) (missing : Value.follow path.segments table.whole = .error (.cantFind key)) :
    table.find query = .error (.cantFind query) := by
  rw [table.find_whole query path read, missing]
  rfl

theorem entry_gone (table edited : Table) (path : Path) (front : List Segment) (key : Text)
    (ends : path.segments = front ++ [.key key])
    (removed : Value.removeAt? (front ++ [.key key]) table.whole = some edited.whole) :
    table.EntryGone edited path where
  gone query other read inside := by
    obtain ⟨more, goesOn⟩ := inside
    apply edited.find_error query other read key
    rw [← goesOn, ends]
    exact Value.remove_gone front key table.whole edited.whole removed more
  beside := by
    rw [ends]
    exact table.find_turned edited _ (Value.remove_beside front key _ _ removed)

theorem item_gone (table edited : Table) (front : List Segment) (index : Nat)
    (removed : Value.removeAt? (front ++ [.index index]) table.whole = some edited.whole) :
    table.ItemGone edited front index where
  before query other place more read goesOn inFront := by
    have same := (Value.remove_moves front index _ _ removed query place more).1 inFront
    rw [edited.find_whole query other read, table.find_whole query other read, goesOn, same]
  behind query other place more read goesOn further next nextOn := by
    have moved := (Value.remove_moves front index _ _ removed query place more).2 further
    have found : edited.find query = (table.follow next).mapError (Error.missingAt query) := by
      rw [edited.find_whole query other read, table.follow_whole, goesOn, nextOn, moved]
    refine ⟨found, fun later readNext => ?_⟩
    rw [found, table.find_whole later next readNext, ← table.follow_whole]
    cases table.follow next with
    | ok item => rfl
    | error error => cases error <;> rfl
  beside := by
    obtain ⟨_, _, _, _, _, beside⟩ := Value.remove_front front (.index index) _ _ removed
    exact table.find_turned edited front beside

theorem erase_found (table : Table) (path : Text) : (table.erase path).2 = table.contains path := by
  cases read : Path.read path with
  | error error =>
    rw [erase, contains, find, read]
    rfl
  | ok parsed =>
    have found := Value.remove_found (.key parsed.root) parsed.rest table.whole
    change (Value.removeAt? parsed.segments table.whole).isSome =
      (Value.follow parsed.segments table.whole).isOk at found
    rw [table.erase_whole path parsed read] at found
    rw [contains, table.find_whole path parsed read]
    cases followed : Value.follow parsed.segments table.whole with
    | ok item =>
      rw [followed] at found
      cases erased : (table.erase path).2 with
      | true => rfl
      | false => simp [erased, Except.isOk, Except.toBool] at found
    | error error =>
      rw [followed] at found
      cases erased : (table.erase path).2 with
      | true => simp [erased, Except.isOk, Except.toBool] at found
      | false => rfl

theorem erase_removes (table : Table) (path : Text) :
    (table.erase path).2 = table.contains path ∧
      ((table.erase path).2 = false → (table.erase path).1 = table) ∧
      ∀ parsed front, Path.read path = .ok parsed → (table.erase path).2 = true →
        (∀ key, parsed.segments = front ++ [.key key] →
          table.EntryGone (table.erase path).1 parsed) ∧
        ∀ index, parsed.segments = front ++ [.index index] →
          table.ItemGone (table.erase path).1 front index := by
  refine ⟨table.erase_found path, fun failed => ?_, fun parsed front read succeeds => ?_⟩
  · rw [erase] at failed ⊢
    split
    · rfl
    · rename_i parsed read
      simp only [read] at failed
      split at failed
      · rfl
      · cases failed
  · have removed := table.erase_whole path parsed read
    rw [if_pos succeeds] at removed
    constructor
    · intro key ends
      exact table.entry_gone _ parsed front key ends (ends ▸ removed)
    · intro index ends
      exact table.item_gone _ front index (ends ▸ removed)

def listed : Table :=
  ⟨[(['b'], ⟨false, .nil⟩), (['s'], ⟨false, .sequence [⟨false, .nil⟩,
    ⟨true, .table [(['k'], ⟨false, .bool true⟩)]⟩, ⟨false, .table [(['m'], ⟨false, .nil⟩)]⟩]⟩)]⟩

theorem erase_removes_listed :
    (listed.erase ['s', '[', '0', ']']).2 = true ∧
      (listed.erase ['s', '[', '0', ']']).1.find ['s', '[', '0', ']', '.', 'k'] = .ok ⟨false, .bool true⟩ ∧
      (listed.erase ['s', '[', '0', ']']).1.find ['s', '[', '1', ']', '.', 'k'] =
        .error (.cantFind ['s', '[', '1', ']', '.', 'k']) ∧
      (listed.erase ['s', '[', '1', ']', '.', 'k']).2 = true ∧
      (listed.erase ['s', '[', '1', ']', '.', 'k']).1.find ['s', '[', '1', ']', '.', 'k', '[', '0', ']'] =
        .error (.cantFind ['s', '[', '1', ']', '.', 'k', '[', '0', ']']) ∧
      (listed.erase ['s', '[', '1', ']', '.', 'k']).1.find ['s', '[', '2', ']', '.', 'm'] =
        listed.find ['s', '[', '2', ']', '.', 'm'] := by
  obtain ⟨found, _, items⟩ := erase_removes listed ['s', '[', '0', ']']
  obtain ⟨foundKey, _, entries⟩ := erase_removes listed ['s', '[', '1', ']', '.', 'k']
  have erased : (listed.erase ['s', '[', '0', ']']).2 = true := found.trans (by with_unfolding_all rfl)
  have erasedKey : (listed.erase ['s', '[', '1', ']', '.', 'k']).2 = true :=
    foundKey.trans (by with_unfolding_all rfl)
  have gone := (items ⟨['s'], [.index 0]⟩ [.key ['s']] (by with_unfolding_all rfl) erased).2 0 rfl
  have entry := (entries ⟨['s'], [.index 1, .key ['k']]⟩ [.key ['s'], .index 1]
    (by with_unfolding_all rfl) erasedKey).1 ['k'] rfl
  refine ⟨erased, ?_, ?_, erasedKey, ?_, ?_⟩
  · rw [(gone.behind _ ⟨['s'], [.index 0, .key ['k']]⟩ 0 [.key ['k']] (by with_unfolding_all rfl) rfl
      (Nat.le_refl 0) ⟨['s'], [.index 1, .key ['k']]⟩ rfl).1]
    rfl
  · rw [(gone.behind _ ⟨['s'], [.index 1, .key ['k']]⟩ 1 [.key ['k']] (by with_unfolding_all rfl) rfl
      (Nat.zero_le 1) ⟨['s'], [.index 2, .key ['k']]⟩ rfl).1]
    rfl
  · exact entry.gone _ ⟨['s'], [.index 1, .key ['k'], .index 0]⟩ (by with_unfolding_all rfl)
      ⟨[.index 0], rfl⟩
  · apply entry.beside
    intro other read
    have parsed : Path.read ['s', '[', '2', ']', '.', 'm'] = .ok ⟨['s'], [.index 2, .key ['m']]⟩ := by
      with_unfolding_all rfl
    cases read.symm.trans parsed
    decide

end Table
end ParamStore

import ParamStore.Proofs.TablePaths

set_option autoImplicit false

namespace ParamStore
namespace Value

theorem behind_new (flag : Bool) (next : Segment) (slot : Option (Flagged Value)) (segment : Segment) :
    behind (some (slot.getD ⟨flag, emptyFor next⟩)) segment = behind slot segment := by
  cases slot with
  | some old => rfl
  | none => cases next <;> cases segment <;> rfl

theorem behind_put (flag : Bool) (entries : List (Text × Flagged Value)) (key : Text)
    (inner : Flagged Value) (segment : Segment) :
    behind (some ⟨flag, .table (Keyed.put key inner entries)⟩) segment =
      if segment = .key key then some inner else behind (some ⟨flag, .table entries⟩) segment := by
  cases segment with
  | key name =>
    rw [behind_entry, behind_entry, Keyed.lookup_put]
    simp only [Segment.key.injEq]
  | index index => rfl

theorem behind_update (flag : Bool) (items : List (Flagged Value)) (index : Nat)
    (bound : index ≤ items.length) (inner : Flagged Value) (segment : Segment) :
    behind (some ⟨flag, .sequence
        (if index = items.length then items ++ [inner] else items.set index inner)⟩) segment =
      if segment = .index index then some inner
      else behind (some ⟨flag, .sequence items⟩) segment := by
  cases segment with
  | key name => rfl
  | index place =>
    rw [behind_item, behind_item]
    simp only [Segment.index.injEq]
    by_cases last : index = items.length
    · rw [if_pos last, List.getElem?_append]
      by_cases here : place = index
      · simp [here, last]
      · by_cases inside : place < items.length
        · simp [here, inside]
        · have beyond : ¬ place - items.length < 1 := by omega
          simp [here, inside, beyond]
    · have inside : index < items.length := by omega
      rw [if_neg last, List.getElem?_set]
      by_cases here : index = place
      · subst here
        simp [inside]
      · simp [here, Ne.symm here]

variable (path : Text) (item : Flagged Value)

-- One step of an insertion that succeeds: behind the next segment goes what the rest of the way makes there,
-- and all else in the container stays. A container that was not there has the item's flag.
theorem fill_inside (next : Segment) (rest : List Segment) (slot : Option (Flagged Value))
    (made : Flagged Value) (done : fill path item (next :: rest) slot = (made, .ok ())) :
    ∃ inner, fill path item rest (behind slot next) = (inner, .ok ()) ∧
      (∀ segment, behind (some made) segment =
        if segment = next then some inner else behind slot segment) ∧
      made.inProlog = (slot.map (·.inProlog)).getD item.inProlog := by
  obtain ⟨changed, placed, rfl⟩ := fill_step path item next rest slot made done
  have flag : (slot.getD ⟨item.inProlog, emptyFor next⟩).inProlog =
      (slot.map (·.inProlog)).getD item.inProlog := by
    cases slot <;> rfl
  simp only [← behind_new item.inProlog next slot]
  generalize slot.getD ⟨item.inProlog, emptyFor next⟩ = old at placed flag ⊢
  obtain ⟨kept, value⟩ := old
  rcases place_cases path item rest next value changed placed with
    ⟨key, entries, inner, rfl, rfl, innerDone, rfl⟩ |
    ⟨index, items, inner, rfl, rfl, innerDone, bound, rfl⟩
  · exact ⟨inner, by rwa [behind_entry], behind_put kept entries key inner, flag⟩
  · exact ⟨inner, by rwa [behind_item], behind_update kept items index bound inner, flag⟩

theorem fill_reached (segments : List Segment) (slot : Option (Flagged Value)) (made : Flagged Value)
    (done : fill path item segments slot = (made, .ok ())) : reach (some made) segments = some item := by
  induction segments generalizing slot made with
  | nil =>
    cases done
    rfl
  | cons next rest ih =>
    obtain ⟨inner, below, seen, _⟩ := fill_inside path item next rest slot made done
    have here := seen next
    rw [if_pos rfl] at here
    change reach (behind (some made) next) rest = some item
    rw [here]
    exact ih (behind slot next) inner below

theorem fill_beside (segments : List Segment) (slot : Option (Flagged Value)) (made : Flagged Value)
    (done : fill path item segments slot = (made, .ok ())) (others : List Segment)
    (notInside : ¬ segments <+: others) (notAbove : ¬ others <+: segments) :
    reach (some made) others = reach slot others := by
  induction segments generalizing slot made others with
  | nil => exact absurd List.nil_prefix notInside
  | cons next rest ih =>
    cases others with
    | nil => exact absurd List.nil_prefix notAbove
    | cons other more =>
      obtain ⟨inner, below, seen, _⟩ := fill_inside path item next rest slot made done
      change reach (behind (some made) other) more = reach (behind slot other) more
      rw [seen other]
      by_cases same : other = next
      · subst same
        rw [List.cons_prefix_cons] at notInside notAbove
        rw [if_pos rfl]
        exact ih (behind slot other) inner below more (fun inside => notInside ⟨rfl, inside⟩)
          fun above => notAbove ⟨rfl, above⟩
      · rw [if_neg same]

theorem fill_above (front : List Segment) (next : Segment) (rest : List Segment)
    (slot : Option (Flagged Value)) (made : Flagged Value)
    (done : fill path item (front ++ next :: rest) slot = (made, .ok ())) :
    ∃ reached, reach (some made) front = some reached ∧
      reached.inProlog = ((reach slot front).map (·.inProlog)).getD item.inProlog := by
  induction front generalizing slot made with
  | nil =>
    obtain ⟨_, _, _, flag⟩ := fill_inside path item next rest slot made done
    exact ⟨made, rfl, flag⟩
  | cons segment front ih =>
    obtain ⟨inner, below, seen, _⟩ := fill_inside path item segment (front ++ next :: rest) slot made done
    have here := seen segment
    rw [if_pos rfl] at here
    change ∃ reached, reach (behind (some made) segment) front = some reached ∧ _
    rw [here]
    exact ih (behind slot segment) inner below

end Value

namespace Table

theorem insert_whole (table : Table) (path : Text) (parsed : Path) (read : Path.read path = .ok parsed)
    (item : Flagged Value) :
    Value.fill path item parsed.segments (some table.whole) =
      ((table.insert path item).1.whole, (table.insert path item).2) := by
  rw [table.insert_filled path parsed read item, Path.segments, whole, Value.fill_entry]
  rfl

theorem insert_updates (table edited : Table) (path : Text) (item : Flagged Value)
    (done : table.insert path item = (edited, .ok ())) :
    ∃ parsed, Path.read path = .ok parsed ∧ edited.find path = .ok item ∧
      (∀ query other more, Path.read query = .ok other → other.segments = parsed.segments ++ more →
        edited.find query = (Value.follow more item).mapError (Error.missingAt query)) ∧
      (∀ query other, Path.read query = .ok other → ¬ parsed.segments <+: other.segments →
        ¬ other.segments <+: parsed.segments → ∀ found,
          edited.find query = .ok found ↔ table.find query = .ok found) ∧
      ∀ query other, Path.read query = .ok other → other.segments <+: parsed.segments →
        other.segments ≠ parsed.segments → ∃ reached, edited.find query = .ok reached ∧
          (∀ old, table.find query = .ok old → reached.inProlog = old.inProlog) ∧
          ((∀ old, table.find query ≠ .ok old) → reached.inProlog = item.inProlog) := by
  obtain ⟨parsed, _, read, _⟩ := table.insert_ok edited path item done
  have filled := table.insert_whole path parsed read item
  rw [done] at filled
  have here := Value.fill_reached path item parsed.segments _ _ filled
  refine ⟨parsed, read, (edited.find_ok path parsed read item).mpr here, ?_, ?_, ?_⟩
  · intro query other more reached goesOn
    rw [edited.find_whole query other reached, goesOn,
      Value.follow_through parsed.segments more edited.whole item ((Value.reach_ok _ _ _).mp here)]
  · intro query other reached notInside notAbove found
    rw [edited.find_ok query other reached, table.find_ok query other reached,
      Value.fill_beside path item parsed.segments _ _ filled other.segments notInside notAbove]
  · intro query other reached above different
    obtain ⟨more, split⟩ := above
    cases more with
    | nil => exact absurd ((List.append_nil _).symm.trans split) different
    | cons next rest =>
      rw [← split] at filled
      obtain ⟨found, leads, flag⟩ := Value.fill_above path item other.segments next rest _ _ filled
      refine ⟨found, (edited.find_ok query other reached found).mpr leads, ?_, ?_⟩
      · intro old before
        rw [flag, (table.find_ok query other reached old).mp before]
        rfl
      · intro nothing
        have missing : Value.reach (some table.whole) other.segments = none := by
          apply Option.eq_none_iff_forall_ne_some.mpr
          intro old leadsBefore
          exact nothing old ((table.find_ok query other reached old).mpr leadsBefore)
        rw [flag, missing]
        rfl

def guarded : Table :=
  ⟨[(['a'], ⟨true, .table [(['s'], ⟨false, .sequence [⟨true, .bool true⟩]⟩)]⟩), (['b'], ⟨false, .nil⟩)]⟩

theorem insert_updates_guarded :
    ∃ edited, guarded.insert ['a', '.', 'c', '.', 'd', '[', '0', ']']
        ⟨false, .table [(['e'], ⟨true, .nil⟩)]⟩ = (edited, .ok ()) ∧
      edited.find ['a', '.', 'c', '.', 'd', '[', ' ', '+', '0', ']', '.', 'e'] = .ok ⟨true, .nil⟩ ∧
      edited.find ['a', '.', 's', '[', '0', ']'] = .ok ⟨true, .bool true⟩ ∧
      (∃ kept, edited.find ['a'] = .ok kept ∧ kept.inProlog = true) ∧
      ∃ fresh, edited.find ['a', '.', 'c'] = .ok fresh ∧ fresh.inProlog = false := by
  obtain ⟨edited, done⟩ : ∃ edited, guarded.insert ['a', '.', 'c', '.', 'd', '[', '0', ']']
      ⟨false, .table [(['e'], ⟨true, .nil⟩)]⟩ = (edited, .ok ()) :=
    ⟨_, Prod.ext rfl (by with_unfolding_all rfl)⟩
  obtain ⟨parsed, read, _, inside, beside, above⟩ := insert_updates guarded edited _ _ done
  have parsedAs : Path.read ['a', '.', 'c', '.', 'd', '[', '0', ']'] =
      .ok ⟨['a'], [.key ['c'], .key ['d'], .index 0]⟩ := by with_unfolding_all rfl
  cases read.symm.trans parsedAs
  refine ⟨edited, done, ?_, ?_, ?_, ?_⟩
  · rw [inside ['a', '.', 'c', '.', 'd', '[', ' ', '+', '0', ']', '.', 'e']
      ⟨['a'], [.key ['c'], .key ['d'], .index 0, .key ['e']]⟩ [.key ['e']] (by with_unfolding_all rfl) rfl]
    rfl
  · apply (beside _ ⟨['a'], [.key ['s'], .index 0]⟩ (by with_unfolding_all rfl) (by decide) (by decide) _).mpr
    with_unfolding_all rfl
  · obtain ⟨kept, found, before, _⟩ := above ['a'] ⟨['a'], []⟩ (by with_unfolding_all rfl) (by decide) (by decide)
    exact ⟨kept, found, before _ (by with_unfolding_all rfl)⟩
  · obtain ⟨fresh, found, _, new⟩ := above ['a', '.', 'c'] ⟨['a'], [.key ['c']]⟩
      (by with_unfolding_all rfl) (by decide) (by decide)
    have missing : guarded.find ['a', '.', 'c'] = .error (.cantFind ['a', '.', 'c']) := by
      with_unfolding_all rfl
    refine ⟨fresh, found, new fun old present => ?_⟩
    rw [missing] at present
    cases present

end Table
end ParamStore

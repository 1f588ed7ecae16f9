import ParamStore.Proofs.KeyedLists
import ParamStore.Proofs.RefusedPuts

set_option autoImplicit false

namespace ParamStore
namespace Entries

theorem eq_of_lookup (entries other : Entries)
    (same : ∀ key, entries.lookup key = other.lookup key) : entries = other :=
  eq_of_cells entries other
    (Keyed.ordered_ext entries.cells other.cells entries.ordered other.ordered same)

theorem put_again (entries : Entries) (key : Text) (first second : Cell) :
    (entries.put key first).put key second = entries.put key second := by
  apply eq_of_lookup
  intro query
  rw [lookup_put, lookup_put, lookup_put]
  by_cases here : query = key
  · rw [if_pos here, if_pos here]
  · rw [if_neg here, if_neg here, if_neg here]

theorem put_swap (entries : Entries) (key other : Text) (different : key ≠ other)
    (first second : Cell) :
    (entries.put key first).put other second = (entries.put other second).put key first := by
  apply eq_of_lookup
  intro query
  rw [lookup_put, lookup_put, lookup_put, lookup_put]
  by_cases here : query = key
  · have elsewhere : query ≠ other := fun there => different (here.symm.trans there)
    rw [if_pos here, if_neg elsewhere, if_pos here]
  · rw [if_neg here, if_neg here]

theorem put_same (entries : Entries) (key : Text) (cell : Cell)
    (present : entries.lookup key = some cell) : entries.put key cell = entries :=
  eq_of_cells _ _ (Keyed.put_present key cell entries.cells entries.ordered present)

end Entries

namespace Store

def ItemPut (items : List Cell) (index : Nat) (item : Cell) (made : List Cell) : Prop :=
  ∀ wanted, made[wanted]? = if wanted = index then some item else items[wanted]?

-- A slot becomes a cell when `cell` is put where the segments lead. Tables on the way are read in the store, and
-- their new contents are among those that `kept` names.
inductive Replaces (store : Store) (kept : Entries → Prop) (cell : Cell) :
    List Segment → Option Cell → Cell → Prop where
  | here (slot : Option Cell) : Replaces store kept cell [] slot cell
  | entry (name : Text) (rest : List Segment) (slot : Option Cell) (entries : Entries) (inner : Cell)
      (there : store.EntriesIn slot entries)
      (inside : Replaces store kept cell rest (entries.lookup name) inner)
      (anew : kept (entries.put name inner)) :
      Replaces store kept cell (.key name :: rest) slot (.table (entries.put name inner).identifier)
  | item (index : Nat) (rest : List Segment) (slot : Option Cell) (items made : List Cell)
      (inner : Cell) (there : ItemsIn slot items)
      (inside : Replaces store kept cell rest items[index]? inner)
      (put : ItemPut items index inner made) :
      Replaces store kept cell (.index index :: rest) slot (.sequence made)

def Has (store : Store) (entries : Entries) : Prop :=
  store.lookup entries.identifier = some entries

theorem entries_in_unique (store : Store) (slot : Option Cell) (entries other : Entries)
    (there : store.EntriesIn slot entries) (again : store.EntriesIn slot other) : entries = other := by
  cases there with
  | none => cases again; rfl
  | table id _ read =>
    cases again with
    | table _ _ reread => exact Option.some.inj (read.symm.trans reread)

theorem items_in_unique (slot : Option Cell) (items other : List Cell) (there : ItemsIn slot items)
    (again : ItemsIn slot other) : items = other := by
  cases there with
  | none => cases again; rfl
  | sequence _ => cases again; rfl

-- A slot with tables of an older store is read there as it is in the newer one.
theorem entries_in_older (before store : Store) (keeps : Keeps before store) (slot : Option Cell)
    (held : before.HoldsSlot slot) (entries : Entries) (there : store.EntriesIn slot entries) :
    before.EntriesIn slot entries := by
  cases there with
  | none => exact .none
  | table id _ read =>
    obtain ⟨older, found⟩ := (contains_iff before id).mp (held _ rfl id (List.mem_singleton_self id))
    cases (keeps id older found).symm.trans read
    exact .table id entries found

theorem entries_in_holds (store : Store) (grown : Grown store.contents) (slot : Option Cell)
    (entries : Entries) (there : store.EntriesIn slot entries) (name : Text) :
    store.HoldsSlot (entries.lookup name) := by
  intro inner present id named
  cases there with
  | none => cases present
  | table table _ read =>
    exact grown_holds store grown table entries read id
      (Entries.lookup_tables entries name inner present id named)

theorem items_in_holds (store : Store) (slot : Option Cell) (held : store.HoldsSlot slot)
    (items : List Cell) (there : ItemsIn slot items) (index : Nat) :
    store.HoldsSlot items[index]? := by
  intro inner present id named
  cases there with
  | none => cases present
  | sequence _ =>
    exact held _ rfl id ((Cell.mem_item_tables items id).mpr
      ⟨inner, List.mem_of_getElem? present, named⟩)

theorem item_put_unique (items : List Cell) (index : Nat) (item : Cell) (made other : List Cell)
    (put : ItemPut items index item made) (again : ItemPut items index item other) : made = other := by
  apply List.ext_getElem?
  intro wanted
  rw [put wanted, again wanted]

theorem item_put_again (items middle made : List Cell) (index : Nat) (first second : Cell)
    (early : ItemPut items index first middle) (late : ItemPut middle index second made) :
    ItemPut items index second made := by
  intro wanted
  rw [late wanted, early wanted]
  by_cases here : wanted = index
  · rw [if_pos here, if_pos here]
  · rw [if_neg here, if_neg here, if_neg here]

theorem item_put_swap (items left right made other : List Cell) (index second : Nat)
    (different : index ≠ second) (item last : Cell) (early : ItemPut items index item left)
    (late : ItemPut left second last made) (first : ItemPut items second last right)
    (next : ItemPut right index item other) : made = other := by
  apply List.ext_getElem?
  intro wanted
  rw [late wanted, early wanted, next wanted, first wanted]
  by_cases here : wanted = index
  · have elsewhere : wanted ≠ second := fun there => different (here.symm.trans there)
    rw [if_pos here, if_neg elsewhere, if_pos here]
  · rw [if_neg here, if_neg here]

theorem place_replaces (before store : Store) (grown : Grown before.contents)
    (keeps : Keeps before store) (kept : Entries → Prop) (path : Text) (overwrite : Bool)
    (cell : Cell) (segments : List Segment) (slot : Option Cell) (held : before.HoldsSlot slot)
    (placed : Cell) (filled : Store)
    (anew : ∀ entries ∈ spine path overwrite cell segments slot store, kept entries)
    (done : place path overwrite cell segments slot store = .ok (placed, filled)) :
    Replaces before kept cell segments slot placed := by
  induction segments generalizing slot placed filled with
  | nil =>
    rw [place] at done
    split at done
    · cases done
    · cases done
      exact .here slot
  | cons segment rest ih =>
    cases segment with
    | key name =>
      obtain ⟨entries, inner, next, reached, below, rfl, _⟩ :=
        place_key path overwrite cell name rest slot store placed filled done
      rw [spine_key path overwrite cell name rest slot store entries inner next reached below] at anew
      have there := entries_in_older before store keeps slot held entries
        (table_at_in store path _ slot entries reached)
      refine .entry name rest slot entries inner there ?_ (anew _ (by simp))
      exact ih _ (entries_in_holds before grown slot entries there name) inner next
        (fun content member => anew content (List.mem_append_left _ member)) below
    | index index =>
      obtain ⟨items, inner, made, reached, below, rfl, put⟩ :=
        place_index path overwrite cell index rest slot store placed filled done
      rw [spine_index path overwrite cell index rest slot store items reached] at anew
      have there := sequence_at_in path _ slot items reached
      refine .item index rest slot items made inner there ?_ put
      exact ih _ (items_in_holds before slot held items there index) inner filled anew below

variable {before later store other : Store} {kept keptLater keptOther : Entries → Prop}
variable {a b : Cell}

theorem replaces_unique (segments : List Segment) (slot : Option Cell) (placed again : Cell)
    (first : Replaces store kept a segments slot placed)
    (second : Replaces store keptOther a segments slot again) : placed = again := by
  induction first generalizing again with
  | here slot => cases second; rfl
  | entry name rest slot entries inner there _ _ ih =>
    cases second with
    | entry _ _ _ others innerAgain thereAgain inside _ =>
      cases entries_in_unique store slot entries others there thereAgain
      rw [ih innerAgain inside]
  | item index rest slot items made inner there _ put ih =>
    cases second with
    | item _ _ _ others madeAgain innerAgain thereAgain inside putAgain =>
      cases items_in_unique slot items others there thereAgain
      cases ih innerAgain inside
      rw [item_put_unique items index inner made madeAgain put putAgain]

theorem replaces_older (grown : Grown before.contents) (keeps : Keeps before store)
    (segments : List Segment) (slot : Option Cell) (held : before.HoldsSlot slot) (placed : Cell)
    (replaced : Replaces store kept a segments slot placed) :
    Replaces before kept a segments slot placed := by
  induction replaced with
  | here slot => exact .here slot
  | entry name rest slot entries inner there _ anew ih =>
    have older := entries_in_older before store keeps slot held entries there
    exact .entry name rest slot entries inner older
      (ih (entries_in_holds before grown slot entries older name)) anew
  | item index rest slot items made inner there _ put ih =>
    exact .item index rest slot items made inner there
      (ih (items_in_holds before slot held items there index)) put

theorem replaces_again (segments : List Segment) (slot : Option Cell) (placed both alone : Cell)
    (first : Replaces before later.Has a segments slot placed)
    (second : Replaces later keptLater b segments (some placed) both)
    (only : Replaces before kept b segments slot alone) : both = alone := by
  induction first generalizing both alone with
  | here slot =>
    cases second
    cases only
    rfl
  | entry name rest slot entries inner there _ anew ih =>
    cases second with
    | entry _ _ _ changed innerBoth thereBoth insideBoth _ =>
      cases entries_in_unique later _ changed _ thereBoth (.table _ _ anew)
      cases only with
      | entry _ _ _ others innerAlone thereAlone insideAlone _ =>
        cases entries_in_unique before slot entries others there thereAlone
        rw [Entries.lookup_put, if_pos rfl] at insideBoth
        rw [Entries.put_again, ih innerBoth innerAlone insideBoth insideAlone]
  | item index rest slot items made inner there _ put ih =>
    cases second with
    | item _ _ _ changed madeBoth innerBoth thereBoth insideBoth putBoth =>
      cases thereBoth
      cases only with
      | item _ _ _ others madeAlone innerAlone thereAlone insideAlone putAlone =>
        cases items_in_unique slot items others there thereAlone
        rw [put index, if_pos rfl] at insideBoth
        cases ih innerBoth innerAlone insideBoth insideAlone
        have putTwice := item_put_again items made madeBoth index inner innerBoth put putBoth
        rw [item_put_unique items index innerBoth madeBoth madeAlone putTwice putAlone]

theorem replaces_settled (grown : Grown before.contents) (keeps : Keeps before store)
    (segments : List Segment) (slot : Option Cell) (held : before.HoldsSlot slot)
    (placed again : Cell) (first : Replaces store kept a segments slot placed)
    (second : Replaces before keptOther a segments slot again) : placed = again :=
  replaces_unique segments slot placed again
    (replaces_older grown keeps segments slot held placed first) second

variable {left right : Store} {keptLeft keptRight : Entries → Prop}

theorem entries_commute (grown : Grown before.contents) (keepsLeft : Keeps before left)
    (keepsRight : Keeps before right) (entries : Entries)
    (held : ∀ key, before.HoldsSlot (entries.lookup key)) (name wanted : Text)
    (rest behind : List Segment) (x y xy yx : Cell)
    (first : Replaces before kept a rest (entries.lookup name) x)
    (second : Replaces left keptLeft b behind ((entries.put name x).lookup wanted) xy)
    (early : Replaces before keptOther b behind (entries.lookup wanted) y)
    (late : Replaces right keptRight a rest ((entries.put wanted y).lookup name) yx)
    (agree : wanted = name → xy = yx) :
    (entries.put name x).put wanted xy = (entries.put wanted y).put name yx := by
  by_cases same : wanted = name
  · rw [agree same, same, Entries.put_again, Entries.put_again]
  · rw [Entries.lookup_put, if_neg same] at second
    rw [Entries.lookup_put, if_neg (Ne.symm same)] at late
    have keptB := replaces_settled grown keepsLeft behind _ (held wanted) xy y second early
    have keptA := replaces_settled grown keepsRight rest _ (held name) yx x late first
    rw [keptB, keptA, Entries.put_swap entries name wanted (Ne.symm same)]

theorem items_commute (grown : Grown before.contents) (keepsLeft : Keeps before left)
    (keepsRight : Keeps before right) (items leftItems rightItems leftMade rightMade : List Cell)
    (held : ∀ place : Nat, before.HoldsSlot items[place]?) (index wanted : Nat)
    (rest behind : List Segment) (x y xy yx : Cell)
    (first : Replaces before kept a rest items[index]? x)
    (second : Replaces left keptLeft b behind leftItems[wanted]? xy)
    (early : Replaces before keptOther b behind items[wanted]? y)
    (late : Replaces right keptRight a rest rightItems[index]? yx)
    (putFirst : ItemPut items index x leftItems) (putSecond : ItemPut leftItems wanted xy leftMade)
    (putEarly : ItemPut items wanted y rightItems) (putLate : ItemPut rightItems index yx rightMade)
    (agree : wanted = index → xy = yx) : leftMade = rightMade := by
  by_cases same : wanted = index
  · cases agree same
    subst same
    exact item_put_unique items wanted xy leftMade rightMade
      (item_put_again items leftItems leftMade wanted x xy putFirst putSecond)
      (item_put_again items rightItems rightMade wanted y xy putEarly putLate)
  · rw [putFirst wanted, if_neg same] at second
    rw [putEarly index, if_neg (Ne.symm same)] at late
    cases replaces_settled grown keepsLeft behind _ (held wanted) xy y second early
    cases replaces_settled grown keepsRight rest _ (held index) yx x late first
    exact item_put_swap items leftItems rightItems leftMade rightMade index wanted (Ne.symm same) _ _
      putFirst putSecond putEarly putLate

-- The induction is on the segments of the first cell. As long as both agree, both runs rebuild one table or list
-- around the slot behind them; where they turn off, each run leaves the other's slot as it was at the start.
theorem replaces_commute (grown : Grown before.contents) (keepsLeft : Keeps before left)
    (keepsRight : Keeps before right) (segments others : List Segment) (slot : Option Cell)
    (held : before.HoldsSlot slot) (x y xy yx : Cell) (notInside : ¬ segments <+: others)
    (notAbove : ¬ others <+: segments)
    (first : Replaces before left.Has a segments slot x)
    (second : Replaces left keptLeft b others (some x) xy)
    (early : Replaces before right.Has b others slot y)
    (late : Replaces right keptRight a segments (some y) yx) : xy = yx := by
  induction first generalizing others y xy yx with
  | here slot => exact absurd List.nil_prefix notInside
  | entry name rest slot entries inner there inside anew ih =>
    cases early with
    | here => exact absurd List.nil_prefix notAbove
    | item =>
      -- What a key makes of the slot takes no index.
      cases second with
      | item _ _ _ _ _ _ thereBoth => cases thereBoth
    | entry wanted behind _ entriesAgain innerB thereAgain insideB anewB =>
      cases entries_in_unique before slot entries entriesAgain there thereAgain
      cases second with
      | entry _ _ _ changed innerAB thereAB insideAB =>
        cases entries_in_unique left _ changed _ thereAB (.table _ _ anew)
        cases late with
        | entry _ _ _ changedB innerBA thereBA insideBA =>
          cases entries_in_unique right _ changedB _ thereBA (.table _ _ anewB)
          have holds := fun key => entries_in_holds before grown slot entries there key
          rw [entries_commute grown keepsLeft keepsRight entries holds name wanted rest behind inner
            innerB innerAB innerBA inside insideAB insideB insideBA]
          intro same
          subst same
          rw [Entries.lookup_put, if_pos rfl] at insideAB insideBA
          rw [List.cons_prefix_cons, not_and] at notInside notAbove
          exact ih behind (holds wanted) innerB innerAB innerBA (notInside rfl) (notAbove rfl)
            insideAB insideB insideBA
  | item index rest slot items made inner there inside put ih =>
    cases early with
    | here => exact absurd List.nil_prefix notAbove
    | entry =>
      cases second with
      | entry _ _ _ _ _ thereBoth => cases thereBoth
    | item wanted behind _ itemsAgain madeB innerB thereAgain insideB putB =>
      cases items_in_unique slot items itemsAgain there thereAgain
      cases second with
      | item _ _ _ _ madeAB innerAB thereAB insideAB putAB =>
        cases thereAB
        cases late with
        | item _ _ _ _ madeBA innerBA thereBA insideBA putBA =>
          cases thereBA
          have holds := fun place : Nat => items_in_holds before slot held items there place
          apply congrArg Cell.sequence
          apply items_commute grown keepsLeft keepsRight items made madeB madeAB madeBA holds index
            wanted rest behind inner innerB innerAB innerBA inside insideAB insideB insideBA put putAB
            putB putBA
          intro same
          subst same
          rw [put wanted, if_pos rfl] at insideAB
          rw [putB wanted, if_pos rfl] at insideBA
          rw [List.cons_prefix_cons, not_and] at notInside notAbove
          exact ih behind (holds wanted) innerB innerAB innerBA (notInside rfl) (notAbove rfl)
            insideAB insideB insideBA

end Store
end ParamStore

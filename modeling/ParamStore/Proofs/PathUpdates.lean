import ParamStore.Proofs.PlacedCells
import ParamStore.Proofs.StoreCopies

set_option autoImplicit false

namespace ParamStore
namespace ParameterSet

theorem find_ok (store : Store) (set : ParameterSet) (query : Text) (parsed : Path)
    (read : Path.read query = .ok parsed) (found : Cell) :
    set.find store query = .ok found ↔
      store.Finds query parsed.rest (set.entries.lookup parsed.root) found := by
  simp only [find, read, bind, Except.bind]
  cases set.entries.lookup parsed.root <;> simp [Store.Finds]

def spine (store : Store) (set : ParameterSet) (path : Text) (overwrite : Bool) (cell : Cell) :
    List Entries :=
  match Path.read path with
  | .error _ => []
  | .ok parsed =>
    Store.spine path overwrite cell parsed.rest (set.entries.lookup parsed.root) store

-- The contents that come into putting a value: what the store holds once the value is encoded, and the
-- tables on the way to it.
def involved (depot : Depot) (set : ParameterSet) (ty : Ty) (path : Text) (overwrite : Bool)
    (value : ty.Value) : List Entries :=
  match ty.encode set.home value depot with
  | .error _ => []
  | .ok (cell, filled) => (filled.store set.home).contents.map Prod.snd ++
      set.spine (filled.store set.home) path overwrite cell

structure Updates (store : Store) (set changed : ParameterSet) (path : Path) (cell : Cell) : Prop where
  inside : ∀ query other more, Path.read query = .ok other →
    other.segments = path.segments ++ more →
      changed.find store query = store.follow query more cell
  beside : ∀ query other, Path.read query = .ok other → ¬ path.segments <+: other.segments →
    ¬ other.segments <+: path.segments →
      ∀ found, changed.find store query = .ok found ↔ set.find store query = .ok found

theorem updates_here (store : Store) (set changed : ParameterSet) (path : Text) (parsed : Path)
    (cell : Cell) (read : Path.read path = .ok parsed)
    (updates : Updates store set changed parsed cell) : changed.find store path = .ok cell :=
  updates.inside path parsed [] read (List.append_nil _).symm

theorem place_updates (before filled : Store) (grown : Store.Grown before.contents)
    (set changed : ParameterSet) (path : Text) (overwrite : Bool) (cell : Cell)
    (apart : Entries.Apart (before.contents.map Prod.snd ++ set.spine before path overwrite cell))
    (done : set.place before path overwrite cell = .ok (changed, filled)) :
    ∃ parsed, Path.read path = .ok parsed ∧ Updates filled set changed parsed cell ∧
      filled.Within (before.contents.map Prod.snd ++ set.spine before path overwrite cell) := by
  obtain ⟨parsed, placed, read, below, rfl⟩ :=
    set.place_ok before path overwrite cell changed filled done
  simp only [spine, read] at apart ⊢
  obtain ⟨rebuilt, within⟩ := Store.place_rebuilt path overwrite cell before parsed.rest _ placed filled
    grown apart below
  refine ⟨parsed, rfl, ⟨?_, ?_⟩, within⟩
  · intro query other more reached goesOn
    obtain ⟨root, rest⟩ := other
    obtain ⟨sameRoot, rfl⟩ := List.cons.inj goesOn
    cases sameRoot
    have found : (set.entries.put parsed.root placed).lookup parsed.root = some placed := by
      rw [Entries.lookup_put, if_pos rfl]
    simp only [find, reached, withEntries, found, bind, Except.bind]
    exact Store.place_inside path overwrite cell before filled parsed.rest _ placed filled below
      rebuilt query more
  · intro query other reached notInside notAbove found
    rw [find_ok filled _ query other reached, find_ok filled set query other reached]
    simp only [withEntries, Entries.lookup_put]
    by_cases same : other.root = parsed.root
    · rw [if_pos same, Store.finds_some, same]
      -- With one root, the steps behind it are what turns off.
      simp only [Path.segments, same, List.cons_prefix_cons, true_and] at notInside notAbove
      exact Store.place_beside path overwrite cell before filled parsed.rest _ placed filled below
        rebuilt query other.rest notInside notAbove found
    · rw [if_neg same]

theorem put_ok (depot : Depot) (set : ParameterSet) (ty : Ty) (path : Text) (overwrite : Bool)
    (value : ty.Value) (changed : ParameterSet) (after : Depot)
    (done : set.put depot ty path overwrite value = ((changed, after), .ok ())) :
    ∃ cell filled store, ty.encode set.home value depot = .ok (cell, filled) ∧
      set.place (filled.store set.home) path overwrite cell = .ok (changed, store) ∧
      after = filled.setStore set.home store := by
  rw [put] at done
  split at done
  · cases done
  · rename_i cell filled encoded
    split at done
    · cases done
    · rename_i made store placed
      cases done
      exact ⟨cell, filled, store, encoded, placed, rfl⟩

structure PutDone (depot : Depot) (set : ParameterSet) (ty : Ty) (path : Text) (overwrite : Bool)
    (value : ty.Value) (changed : ParameterSet) (after : Depot) (cell : Cell) (filled : Depot)
    (parsed : Path) : Prop where
  encoded : ty.encode set.home value depot = .ok (cell, filled)
  read : Path.read path = .ok parsed
  home : changed.home = set.home
  early : Depot.Grows depot filled
  held : (filled.store set.home).Holds cell.tables
  late : Depot.Grows filled after
  backs : after.Backs changed
  updates : Updates (after.store set.home) set changed parsed cell
  within : (after.store set.home).Within (set.involved depot ty path overwrite value)

theorem put_done (depot : Depot) (sound : depot.Sound) (set : ParameterSet) (backs : depot.Backs set)
    (ty : Ty) (value : ty.Value) (backed : ∀ used ∈ ty.setsIn value, depot.Backs used) (path : Text)
    (overwrite : Bool) (changed : ParameterSet) (after : Depot)
    (done : set.put depot ty path overwrite value = ((changed, after), .ok ()))
    (apart : Entries.Apart (set.involved depot ty path overwrite value)) :
    ∃ cell filled parsed,
      PutDone depot set ty path overwrite value changed after cell filled parsed := by
  obtain ⟨cell, filled, store, encoded, placed, rfl⟩ :=
    put_ok depot set ty path overwrite value changed after done
  have contents : set.involved depot ty path overwrite value =
      (filled.store set.home).contents.map Prod.snd ++
        set.spine (filled.store set.home) path overwrite cell := by simp only [involved, encoded]
  rw [contents] at apart
  obtain ⟨early, held⟩ := Ty.encode_grows set.home ty value depot cell filled sound backs.home backed
    encoded
  have filledSound := Depot.grows_sound depot filled early
  have backsFilled := Depot.grows_backs depot filled early set backs
  obtain ⟨late, changedBacks⟩ := Depot.place_backs filled filledSound set changed backsFilled path
    overwrite cell store held placed
  obtain ⟨parsed, read, updates, within⟩ := place_updates (filled.store set.home) store
    (filledSound set.home) set changed path overwrite cell apart placed
  have here : (filled.setStore set.home store).store set.home = store := by
    rw [Depot.store_set_store filled set.home set.home store backsFilled.home, if_pos rfl]
  have home : changed.home = set.home := by
    obtain ⟨_, _, _, _, rfl⟩ := set.place_ok _ path overwrite cell changed store placed
    rfl
  refine ⟨cell, filled, parsed, encoded, read, home, early, held, late, changedBacks, ?_, ?_⟩
  · rw [here]
    exact updates
  · rw [here, contents]
    exact within

end ParameterSet

namespace Depot

theorem grows_agrees (before after : Depot) (grows : Grows before after) (number : Nat) :
    Store.Agrees (before.store number) (after.store number) := by
  intro id entries other here there
  have kept := (grows.stores number).keeps id entries here
  exact Option.some.inj (kept.symm.trans there)

theorem grows_alike (before after : Depot) (sound : before.Sound) (grows : Grows before after)
    (set : ParameterSet) (backs : before.Backs set) :
    ParameterSet.Alike (before.store set.home) set (after.store set.home) set :=
  ParameterSet.alike_of_agrees _ _ (sound set.home) (grows.stores set.home).grown
    (grows_agrees before after grows set.home) set set rfl backs.tables
    (grows_backs before after grows set backs).tables

end Depot

namespace Session

theorem put_updates (session : Session) (reachable : session.Reachable) (name : Text)
    (set : ParameterSet) (found : session.sets.lookup name = some set) (ty : Ty) (value : ty.Value)
    (live : ∀ used ∈ ty.setsIn value, ∃ known, session.sets.lookup known = some used) (path : Text)
    (overwrite : Bool) (changed : ParameterSet) (after : Depot)
    (done : set.put session.depot ty path overwrite value = ((changed, after), .ok ()))
    (apart : Entries.Apart (set.involved session.depot ty path overwrite value)) :
    ∃ cell filled parsed, ty.encode set.home value session.depot = .ok (cell, filled) ∧
      Path.read path = .ok parsed ∧ changed.home = set.home ∧
      changed.find (after.store set.home) path = .ok cell ∧
      (∀ query other more, Path.read query = .ok other → other.segments = parsed.segments ++ more →
        changed.find (after.store set.home) query = (after.store set.home).follow query more cell) ∧
      (∀ query other, Path.read query = .ok other → ¬ parsed.segments <+: other.segments →
        ¬ other.segments <+: parsed.segments → ∀ leaf,
          changed.find (after.store set.home) query = .ok leaf ↔
            set.find (session.homeOf set) query = .ok leaf) ∧
      ∀ number id entries, (session.depot.store number).lookup id = some entries →
        (after.store number).lookup id = some entries := by
  have sound := reachable_sound session reachable
  have backs := sound.sets name set found
  have backed : ∀ used ∈ ty.setsIn value, session.depot.Backs used := by
    intro used member
    obtain ⟨known, present⟩ := live used member
    exact sound.sets known used present
  obtain ⟨cell, filled, parsed, put⟩ := ParameterSet.put_done session.depot sound.depot set backs ty
    value backed path overwrite changed after done apart
  have grows := Depot.grows_trans session.depot filled after put.early put.late
  refine ⟨cell, filled, parsed, put.encoded, put.read, put.home,
    ParameterSet.updates_here _ set changed path parsed cell put.read put.updates, put.updates.inside,
    ?_, fun number => (grows.stores number).keeps⟩
  intro query other reached notInside notAbove leaf
  rw [put.updates.beside query other reached notInside notAbove leaf,
    (Depot.grows_alike session.depot after sound.depot grows set backs).find query]
  rfl

def branching : Session :=
  Session.empty.run [.openStore ['r'], .create ['p'] ['r'], .put ['p'] ['a', '.', 'b'] .bool true,
    .put ['p'] ['s', '[', '0', ']', '.', 'b'] .bool true]

theorem put_updates_branching :
    branching.Reachable ∧ ∃ set changed after, branching.sets.lookup ['p'] = some set ∧
      set.put branching.depot (.list .bool) ['s', '[', '0', ']', '.', 'c'] true [false, true] =
        ((changed, after), .ok ()) ∧
      changed.find (after.store 0) ['s', '[', '0', ']', '.', 'c', '[', '1', ']'] =
        .ok (.of .bool trueWord) ∧
      changed.find (after.store 0) ['s', '[', '0', ']', '.', 'b'] = .ok (.of .bool trueWord) ∧
      ∀ leaf, changed.find (after.store 0) ['a'] = .ok leaf ↔
        set.find (branching.depot.store 0) ['a'] = .ok leaf := by
  have reachable : branching.Reachable :=
    leads_run .empty .empty .refl _ (permits_plain _ _ (by simp [Operation.sets, Ty.setsIn]))
  have checked : (branching.sets.lookup ['p']).any (fun set =>
      decide (set.home = 0 ∧ Entries.Apart (set.involved branching.depot (.list .bool)
        ['s', '[', '0', ']', '.', 'c'] true [false, true]) ∧
      (set.put branching.depot (.list .bool) ['s', '[', '0', ']', '.', 'c'] true [false, true]).2 =
        .ok () ∧
      set.find (branching.depot.store 0) ['s', '[', '0', ']', '.', 'b'] =
        .ok (.of .bool trueWord))) = true := by decide +kernel
  obtain ⟨set, found, decided⟩ := (Option.any_eq_true _ _).mp checked
  obtain ⟨home, apart, succeeds, before⟩ := of_decide_eq_true decided
  obtain ⟨changed, after, done⟩ : ∃ changed after,
      set.put branching.depot (.list .bool) ['s', '[', '0', ']', '.', 'c'] true [false, true] =
        ((changed, after), .ok ()) := ⟨_, _, Prod.ext rfl succeeds⟩
  obtain ⟨cell, filled, parsed, encoded, read, _, _, inside, beside, _⟩ :=
    put_updates branching reachable ['p'] set found (.list .bool) [false, true]
      (by simp [Ty.setsIn]) ['s', '[', '0', ']', '.', 'c'] true changed after done apart
  cases encoded
  have parsedAs : Path.read ['s', '[', '0', ']', '.', 'c'] = .ok ⟨['s'], [.index 0, .key ['c']]⟩ := by
    with_unfolding_all rfl
  cases read.symm.trans parsedAs
  rw [home] at inside beside
  refine ⟨reachable, set, changed, after, found, done, ?_, ?_, ?_⟩
  · exact inside _ ⟨['s'], [.index 0, .key ['c'], .index 1]⟩ [.index 1] (by with_unfolding_all rfl) rfl
  · exact (beside _ ⟨['s'], [.index 0, .key ['b']]⟩ (by with_unfolding_all rfl) (by decide) (by decide)
      _).mpr (by rw [homeOf, home]; exact before)
  · intro leaf
    have kept := beside ['a'] ⟨['a'], []⟩ (by with_unfolding_all rfl) (by decide) (by decide) leaf
    rwa [homeOf, home] at kept

end Session
end ParamStore

import ParamStore.Proofs.ReplacedCells

set_option autoImplicit false

namespace ParamStore
namespace Store

theorem finds_held (store : Store) (grown : Grown store.contents) (path : Text)
    (segments : List Segment) (slot : Option Cell) (held : store.HoldsSlot slot) (found : Cell)
    (leads : store.Finds path segments slot found) : store.Holds found.tables := by
  induction segments generalizing slot with
  | nil =>
    obtain ⟨cell, rfl, same⟩ := leads
    cases same
    exact held found rfl
  | cons step rest ih =>
    exact ih (store.behind slot step) (behind_holds store grown slot held step)
      ((finds_step store path step rest slot found).mp leads)

theorem insert_stored (store : Store) (id : Identifier) (entries : Entries)
    (read : store.lookup id = some entries) : store.insert id entries = store := by
  rw [insert, if_pos ((contains_iff store id).mpr ⟨entries, read⟩)]

-- Putting back what was found rebuilds each table and list as it is, and so stores nothing.
theorem place_back (store : Store) (grown : Grown store.contents) (path : Text) (cell : Cell)
    (segments : List Segment) (slot : Option Cell)
    (leads : store.Finds path segments slot cell) :
    ∃ there, slot = some there ∧ place path true cell segments slot store = .ok (there, store) := by
  induction segments generalizing slot with
  | nil =>
    obtain ⟨there, rfl, same⟩ := leads
    cases same
    exact ⟨cell, rfl, rfl⟩
  | cons step rest ih =>
    obtain ⟨there, rfl, followed⟩ := leads
    refine ⟨there, rfl, ?_⟩
    cases step with
    | key name =>
      cases there with
      | table id =>
        cases read : store.lookup id with
        | none => simp [follow, Store.entries, read, bind, Except.bind] at followed
        | some entries =>
          obtain ⟨inner, present, below⟩ :=
            ih _ ((follow_table store path name rest id entries read cell).mp followed)
          have reached : store.tableAt path (.key name) (some (.table id)) = .ok entries := by
            rw [tableAt, Store.entries, read]
          have named := (grown_lookup store.contents grown id entries read).1
          rw [key_placed path true cell name rest _ store entries inner store reached below,
            Entries.put_same entries name inner present, intern, ← named,
            insert_stored store id entries read]
      | _ => cases followed
    | index index =>
      cases there with
      | sequence items =>
        obtain ⟨inner, present, below⟩ :=
          ih _ ((follow_sequence store path index rest items cell).mp followed)
        obtain ⟨inside, here⟩ := List.getElem?_eq_some_iff.mp present
        rw [index_placed path true cell index rest _ store items inner store rfl
          (Nat.le_of_lt inside) below, if_neg (Nat.ne_of_lt inside), ← here, List.set_getElem_self]
      | _ => cases followed

end Store

namespace Ty

def Settles {α : Type} (encode : α → Depot → Except Error (Cell × Depot)) : Prop :=
  ∀ value depot other cell again filled otherFilled, encode value depot = .ok (cell, filled) →
    encode value other = .ok (again, otherFilled) → cell = again

theorem encode_items_settle {α : Type} (encode : α → Depot → Except Error (Cell × Depot))
    (each : Settles encode) (items : List α) (depot other : Depot) (cells again : List Cell)
    (filled otherFilled : Depot) (done : encodeItems encode items depot = .ok (cells, filled))
    (redone : encodeItems encode items other = .ok (again, otherFilled)) : cells = again := by
  induction items generalizing depot other cells again filled otherFilled with
  | nil =>
    cases done
    cases redone
    rfl
  | cons item tail ih =>
    simp only [encodeItems, Outcome.bind_ok] at done redone
    obtain ⟨⟨first, next⟩, one, ⟨rest, last⟩, others, result⟩ := done
    obtain ⟨⟨otherFirst, otherNext⟩, otherOne, ⟨otherRest, otherLast⟩, otherOthers, otherResult⟩ :=
      redone
    cases result
    cases otherResult
    rw [each item depot other first otherFirst next otherNext one otherOne,
      ih next otherNext rest otherRest last otherLast others otherOthers]

theorem plain_settles {α β : Type} (made : α → Except Error β) (shown : β → Cell) :
    Settles fun value depot => (made value).map fun result => (shown result, depot) := by
  intro value depot other cell again filled otherFilled done redone
  obtain ⟨result, read, same⟩ := (Outcome.map_ok _ _ _).mp done
  obtain ⟨otherResult, reread, otherSame⟩ := (Outcome.map_ok _ _ _).mp redone
  cases read.symm.trans reread
  cases same
  cases otherSame
  rfl

theorem put_names (depot : Depot) (target : Nat) (set : ParameterSet) (id : Identifier)
    (after : Depot) (done : depot.put target set = .ok (id, after)) : id = set.id := by
  unfold Depot.put at done
  by_cases taken : (depot.store target).contains set.id = true
  · simp only [taken, if_true] at done
    cases done
    rfl
  · by_cases here : set.home = target
    · simp only [taken, here, if_true, if_false, Bool.false_eq_true] at done
      cases done
      rfl
    · simp only [taken, here, if_false, Bool.false_eq_true] at done
      obtain ⟨filled, _, result⟩ := (Outcome.bind_ok _ _ _).mp done
      cases result
      rfl

theorem encode_settles (home : Nat) (ty : Ty) : Settles (ty.encode home) := by
  induction ty with
  | nil => exact plain_settles (fun _ => .ok ()) fun _ => Cell.nil
  | bool => exact plain_settles (fun value => .ok (encodeBool value)) (Cell.of .bool)
  | int type => exact plain_settles (fun value : type.Number => .ok (encodeInt value.1)) (Cell.of .integer)
  | single => exact plain_settles (fun value : Single => encodeDouble value.widen) fun cell => cell
  | double => exact plain_settles encodeDouble fun cell => cell
  | complex => exact plain_settles joinedComplex fun cell => cell
  | string => exact plain_settles encodeString (Cell.of .string)
  | set =>
    intro value depot other cell again filled otherFilled done redone
    obtain ⟨⟨id, last⟩, stored, same⟩ := (Outcome.map_ok _ _ _).mp done
    obtain ⟨⟨otherId, otherLast⟩, restored, otherSame⟩ := (Outcome.map_ok _ _ _).mp redone
    cases same
    cases otherSame
    rw [put_names depot home value id last stored,
      put_names other home value otherId otherLast restored]
  | cell =>
    intro value depot other cell again filled otherFilled done redone
    obtain ⟨_, _, same⟩ := (Outcome.map_ok _ _ _).mp done
    obtain ⟨_, _, otherSame⟩ := (Outcome.map_ok _ _ _).mp redone
    cases same
    cases otherSame
    rfl
  | option inner ih =>
    intro value depot other cell again filled otherFilled done redone
    cases value with
    | none =>
      cases done
      cases redone
      rfl
    | some value => exact ih value depot other cell again filled otherFilled done redone
  | list inner ih =>
    intro values depot other cell again filled otherFilled done redone
    obtain ⟨⟨cells, last⟩, made, same⟩ := (Outcome.map_ok _ _ _).mp done
    obtain ⟨⟨otherCells, otherLast⟩, remade, otherSame⟩ := (Outcome.map_ok _ _ _).mp redone
    cases same
    cases otherSame
    rw [encode_items_settle (inner.encode home) ih values depot other cells otherCells last otherLast
      made remade]

end Ty

namespace Depot

theorem set_store_self (depot : Depot) (number : Nat) (inside : number < depot.stores.length) :
    depot.setStore number (depot.store number) = depot := by
  simp [setStore, store, inside]

end Depot

namespace ParameterSet

theorem put_back (depot : Depot) (sound : depot.Sound) (set : ParameterSet)
    (backs : depot.Backs set) (path : Text) (cell : Cell)
    (found : set.find (depot.store set.home) path = .ok cell) :
    set.put depot .cell path true cell = ((set.withEntries set.entries, depot), .ok ()) := by
  cases read : Path.read path with
  | error error => simp [find, read, bind, Except.bind] at found
  | ok parsed =>
    have leads := (set.find_ok (depot.store set.home) path parsed read cell).mp found
    have grown := sound set.home
    have held := Store.finds_held (depot.store set.home) grown path parsed.rest _
      (Depot.backs_slot depot set backs parsed.root) cell leads
    have encoded : Ty.cell.encode set.home cell depot = .ok (cell, depot) := by
      have checked := (Store.check_tables_iff (depot.store set.home) cell).mpr held
      simp only [Ty.encode, checked, Except.map]
    obtain ⟨there, present, placed⟩ :=
      Store.place_back (depot.store set.home) grown path cell parsed.rest _ leads
    rw [set.put_placed depot .cell path parsed read true cell cell depot encoded, placed]
    simp only [Entries.put_same set.entries parsed.root there present,
      Depot.set_store_self depot set.home backs.home]

-- Told in the store as it was at first; the depot may have grown meanwhile.
structure PutReplaces (depot start : Depot) (set : ParameterSet) (ty : Ty) (path : Text)
    (overwrite : Bool) (value : ty.Value) (changed : ParameterSet) (after : Depot) (cell : Cell)
    (parsed : Path) (placed : Cell) : Prop where
  encoded : ∃ filled, ty.encode set.home value start = .ok (cell, filled)
  read : Path.read path = .ok parsed
  result : changed = set.withEntries (set.entries.put parsed.root placed)
  grows : Depot.Grows start after
  backs : after.Backs changed
  replaced : (depot.store set.home).Replaces (fun _ => True) cell parsed.rest
    (set.entries.lookup parsed.root) placed
  rebuilt : Entries.Apart (set.involved start ty path overwrite value) →
    (depot.store set.home).Replaces (after.store set.home).Has cell parsed.rest
      (set.entries.lookup parsed.root) placed

theorem put_replaces (depot start : Depot) (sound : depot.Sound) (set : ParameterSet)
    (backs : depot.Backs set) (early : Depot.Grows depot start) (ty : Ty) (value : ty.Value)
    (backed : ∀ used ∈ ty.setsIn value, depot.Backs used) (path : Text) (overwrite : Bool)
    (changed : ParameterSet) (after : Depot)
    (done : set.put start ty path overwrite value = ((changed, after), .ok ())) :
    ∃ cell parsed placed,
      PutReplaces depot start set ty path overwrite value changed after cell parsed placed := by
  obtain ⟨cell, filled, store, encoded, placing, rfl⟩ :=
    put_ok start set ty path overwrite value changed after done
  have startSound := Depot.grows_sound depot start early
  have startBacks := Depot.grows_backs depot start early set backs
  obtain ⟨encodes, held⟩ := Ty.encode_grows set.home ty value start cell filled startSound
    startBacks.home (fun used member => Depot.grows_backs depot start early used (backed used member))
    encoded
  have filledBacks := Depot.grows_backs start filled encodes set startBacks
  have filledSound := Depot.grows_sound start filled encodes
  obtain ⟨late, changedBacks⟩ := Depot.place_backs filled filledSound set changed filledBacks path
    overwrite cell store held placing
  have here : (filled.setStore set.home store).store set.home = store := by
    rw [Depot.store_set_store filled set.home set.home store filledBacks.home, if_pos rfl]
  obtain ⟨parsed, placed, read, below, rfl⟩ :=
    set.place_ok (filled.store set.home) path overwrite cell changed store placing
  have keeps := ((Depot.grows_trans depot start filled early encodes).stores set.home).keeps
  have replaced := fun kept anew => Store.place_replaces (depot.store set.home)
    (filled.store set.home) (sound set.home) keeps kept path overwrite cell parsed.rest _
    (Depot.backs_slot depot set backs parsed.root) placed store anew below
  refine ⟨cell, parsed, placed, ⟨filled, encoded⟩, read, rfl,
    Depot.grows_trans start filled _ encodes late, changedBacks,
    replaced _ fun _ _ => trivial, fun apart => replaced _ ?_⟩
  simp only [involved, encoded, spine, read] at apart
  rw [here]
  exact (Store.place_rebuilt path overwrite cell (filled.store set.home) parsed.rest _ placed store
    (filledSound set.home) apart below).1.anew

variable {depot start : Depot} {set : ParameterSet} {ty other : Ty} {a : ty.Value} {b : other.Value}
variable {path query : Text} {first both : ParameterSet} {early late : Depot}

theorem put_possible (sound : depot.Sound) (backs : depot.Backs set) (grows : Depot.Grows depot start)
    (backed : ∀ used ∈ ty.setsIn a, depot.Backs used)
    (otherBacked : ∀ used ∈ other.setsIn b, depot.Backs used)
    (done : set.put depot ty path true a = ((first, early), .ok ())) (cell : Cell) (filled : Depot)
    (encoded : other.encode set.home b start = .ok (cell, filled)) :
    ∃ alone after, set.put start other path true b = ((alone, after), .ok ()) := by
  obtain ⟨x, parsed, placed, one⟩ := put_replaces depot depot sound set backs
    (Depot.grows_refl depot sound) ty a backed path true first early done
  obtain ⟨last, shown⟩ := one.encoded
  have ends := set.put_ends depot sound backs ty path parsed one.read a x last shown
    (Ty.encode_grows set.home ty a depot x last sound backs.home backed shown).1
  have clear : (depot.store set.home).obstacle? path parsed.rest (set.entries.lookup parsed.root) =
      none := by
    cases blocked : (depot.store set.home).obstacle? path parsed.rest
      (set.entries.lookup parsed.root) with
    | none => rfl
    | some error =>
      have failed := ends.blocked error blocked
      rw [done] at failed
      cases failed
  have encodes := Ty.encode_grows set.home other b start cell filled
    (Depot.grows_sound depot start grows) (Depot.grows_backs depot start grows set backs).home
    (fun used member => Depot.grows_backs depot start grows used (otherBacked used member)) encoded
  obtain ⟨⟨made, store⟩, placing⟩ := Store.place_clear (depot.store set.home) (filled.store set.home)
    path (sound set.home) ((Depot.grows_trans depot start filled grows encodes.1).stores set.home).keeps
    cell parsed.rest _ (Depot.backs_slot depot set backs parsed.root) clear
  rw [set.put_placed start other path parsed one.read true b cell filled encoded, placing]
  exact ⟨_, _, rfl⟩

structure TwoPuts (depot start : Depot) (set : ParameterSet) (ty other : Ty) (path query : Text)
    (a : ty.Value) (b : other.Value) (both first : ParameterSet) (early : Depot) (x y : Cell)
    (here there : Path) (placed placedBoth : Cell) : Prop where
  one : PutReplaces depot start set ty path true a first early x here placed
  encoded : ∃ filled, other.encode set.home b early = .ok (y, filled)
  read : Path.read query = .ok there
  result : both = set.withEntries ((set.entries.put here.root placed).put there.root placedBoth)
  replaced : (early.store set.home).Replaces (fun _ => True) y there.rest
    ((set.entries.put here.root placed).lookup there.root) placedBoth

theorem two_puts (sound : depot.Sound) (backs : depot.Backs set) (grows : Depot.Grows depot start)
    (backed : ∀ used ∈ ty.setsIn a, depot.Backs used)
    (otherBacked : ∀ used ∈ other.setsIn b, depot.Backs used)
    (done : set.put start ty path true a = ((first, early), .ok ()))
    (again : first.put early other query true b = ((both, late), .ok ())) :
    ∃ x y here there placed placedBoth, TwoPuts depot start set ty other path query a b both first
      early x y here there placed placedBoth := by
  obtain ⟨x, here, placed, one⟩ := put_replaces depot start sound set backs grows ty a backed path true
    first early done
  have later := Depot.grows_trans depot start early grows one.grows
  have earlySound := Depot.grows_sound depot early later
  obtain ⟨y, there, placedBoth, two⟩ := put_replaces early early earlySound first one.backs
    (Depot.grows_refl early earlySound) other b
    (fun used member => Depot.grows_backs depot early later used (otherBacked used member)) query true
    both late again
  have encoded := two.encoded
  have result := two.result
  have replaced := two.replaced
  rw [one.result] at encoded result replaced
  exact ⟨x, y, here, there, placed, placedBoth, one, encoded, two.read, result, replaced⟩

theorem put_collapses (sound : depot.Sound) (backs : depot.Backs set)
    (grows : Depot.Grows depot start) (backed : ∀ used ∈ ty.setsIn a, depot.Backs used)
    (otherBacked : ∀ used ∈ other.setsIn b, depot.Backs used)
    (apart : Entries.Apart (set.involved depot ty path true a))
    (done : set.put depot ty path true a = ((first, early), .ok ()))
    (again : first.put early other path true b = ((both, late), .ok ())) (alone : ParameterSet)
    (after : Depot) (only : set.put start other path true b = ((alone, after), .ok ())) :
    both = alone := by
  obtain ⟨x, y, here, there, placed, placedBoth, two⟩ :=
    two_puts sound backs (Depot.grows_refl depot sound) backed otherBacked done again
  obtain ⟨z, parsed, placedAlone, only⟩ := put_replaces depot start sound set backs grows other b
    otherBacked path true alone after only
  cases two.read.symm.trans two.one.read
  cases only.read.symm.trans two.one.read
  obtain ⟨_, encoded⟩ := two.encoded
  obtain ⟨_, reencoded⟩ := only.encoded
  cases Ty.encode_settles set.home other b _ _ _ _ _ _ encoded reencoded
  have inside := two.replaced
  rw [Entries.lookup_put, if_pos rfl] at inside
  have agree := Store.replaces_again here.rest _ placed placedBoth placedAlone
    (two.one.rebuilt apart) inside only.replaced
  rw [two.result, only.result, agree, Entries.put_again]

theorem put_commutes (sound : depot.Sound) (backs : depot.Backs set)
    (grows : Depot.Grows depot start) (backed : ∀ used ∈ ty.setsIn a, depot.Backs used)
    (otherBacked : ∀ used ∈ other.setsIn b, depot.Backs used)
    (apart : Entries.Apart (set.involved depot ty path true a))
    (otherApart : Entries.Apart (set.involved start other query true b))
    (here there : Path) (read : Path.read path = .ok here)
    (otherRead : Path.read query = .ok there)
    (notInside : ¬ here.segments <+: there.segments)
    (notAbove : ¬ there.segments <+: here.segments)
    (done : set.put depot ty path true a = ((first, early), .ok ()))
    (again : first.put early other query true b = ((both, late), .ok ()))
    (second swapped : ParameterSet) (middle last : Depot)
    (otherDone : set.put start other query true b = ((second, middle), .ok ()))
    (otherAgain : second.put middle ty path true a = ((swapped, last), .ok ())) :
    both = swapped := by
  obtain ⟨x, y, _, _, placed, placedBoth, left⟩ :=
    two_puts sound backs (Depot.grows_refl depot sound) backed otherBacked done again
  obtain ⟨z, w, _, _, placedSecond, placedSwapped, right⟩ :=
    two_puts sound backs grows otherBacked backed otherDone otherAgain
  cases left.one.read.symm.trans read
  cases left.read.symm.trans otherRead
  cases right.one.read.symm.trans otherRead
  cases right.read.symm.trans read
  obtain ⟨_, shown⟩ := left.one.encoded
  obtain ⟨_, encoded⟩ := left.encoded
  obtain ⟨_, reencoded⟩ := right.one.encoded
  obtain ⟨_, reshown⟩ := right.encoded
  cases Ty.encode_settles set.home ty a _ _ _ _ _ _ shown reshown
  cases Ty.encode_settles set.home other b _ _ _ _ _ _ encoded reencoded
  have keepsLeft := (left.one.grows.stores set.home).keeps
  have keepsRight := ((Depot.grows_trans depot start middle grows right.one.grows).stores set.home).keeps
  have agree := Store.entries_commute (sound set.home) keepsLeft keepsRight set.entries
    (Depot.backs_slot depot set backs) here.root there.root here.rest there.rest placed placedSecond
    placedBoth placedSwapped left.one.replaced left.replaced right.one.replaced right.replaced
  rw [left.result, right.result, agree]
  intro same
  -- With one root the paths turn off behind it.
  have inside := left.replaced
  have otherInside := right.replaced
  have early := right.one.rebuilt otherApart
  rw [same, Entries.lookup_put, if_pos rfl] at inside otherInside
  rw [same] at early
  simp only [Path.segments, same, List.cons_prefix_cons, true_and] at notInside notAbove
  exact Store.replaces_commute (sound set.home) keepsLeft keepsRight here.rest there.rest
    (set.entries.lookup here.root) (Depot.backs_slot depot set backs here.root) placed placedSecond
    placedBoth placedSwapped notInside notAbove (left.one.rebuilt apart) inside early otherInside

def putBoth (depot : Depot) (set : ParameterSet) (ty other : Ty) (path query : Text) (a : ty.Value)
    (b : other.Value) : (ParameterSet × Depot) × Except Error Unit :=
  match set.put depot ty path true a with
  | (last, .error error) => (last, .error error)
  | ((first, early), .ok ()) => first.put early other query true b

theorem put_both_ok (depot : Depot) (set : ParameterSet) (ty other : Ty) (path query : Text)
    (a : ty.Value) (b : other.Value) (both : ParameterSet) (late : Depot)
    (done : set.putBoth depot ty other path query a b = ((both, late), .ok ())) :
    ∃ first early, set.put depot ty path true a = ((first, early), .ok ()) ∧
      first.put early other query true b = ((both, late), .ok ()) := by
  rw [putBoth] at done
  split at done
  · cases done
  · rename_i first early one
    exact ⟨first, early, one, done⟩

end ParameterSet

namespace Session

def Lends (session : Session) (ty : Ty) (value : ty.Value) : Prop :=
  ∀ used ∈ ty.setsIn value, ∃ known, session.sets.lookup known = some used

-- The runs that are compared need not start alike: the stores may have grown in between.
theorem puts_independent (session : Session) (reachable : session.Reachable) (name : Text)
    (set : ParameterSet) (found : session.sets.lookup name = some set) :
    (∀ path cell, set.find (session.homeOf set) path = .ok cell → ∃ same,
      set.put session.depot .cell path true cell = ((same, session.depot), .ok ()) ∧
        same.sameContent set = true ∧ same.id = set.id) ∧
    ∀ (ty other : Ty) (a : ty.Value) (b : other.Value), session.Lends ty a → session.Lends other b →
      ∀ depot, Depot.Grows session.depot depot →
      (∀ path both late,
        set.putBoth session.depot ty other path path a b = ((both, late), .ok ()) →
        Entries.Apart (set.involved session.depot ty path true a) →
        ∀ cell filled, other.encode set.home b depot = .ok (cell, filled) →
          ∃ alone after, set.put depot other path true b = ((alone, after), .ok ()) ∧
            both.sameContent alone = true ∧ both.id = alone.id) ∧
      ∀ path query here there both late swapped last,
        Path.read path = .ok here → Path.read query = .ok there →
        ¬ here.segments <+: there.segments → ¬ there.segments <+: here.segments →
        set.putBoth session.depot ty other path query a b = ((both, late), .ok ()) →
        set.putBoth depot other ty query path b a = ((swapped, last), .ok ()) →
        Entries.Apart (set.involved session.depot ty path true a) →
        Entries.Apart (set.involved depot other query true b) →
          both.sameContent swapped = true ∧ both.id = swapped.id := by
  have sound := reachable_sound session reachable
  have backs := sound.sets name set found
  have backed : ∀ (ty : Ty) (value : ty.Value), session.Lends ty value →
      ∀ used ∈ ty.setsIn value, session.depot.Backs used := by
    intro ty value lends used member
    obtain ⟨known, present⟩ := lends used member
    exact sound.sets known used present
  constructor
  · intro path cell leads
    refine ⟨set.withEntries set.entries,
      ParameterSet.put_back session.depot sound.depot set backs path cell leads, ?_, ?_⟩
    · simp [ParameterSet.sameContent, ParameterSet.withEntries]
    · exact (Depot.id_of_backs session.depot set backs).symm
  · intro ty other a b lends otherLends depot grows
    have aBacked := backed ty a lends
    have bBacked := backed other b otherLends
    constructor
    · intro path both late puts apart cell filled encoded
      obtain ⟨first, early, done, again⟩ := set.put_both_ok _ _ _ _ _ _ _ both late puts
      obtain ⟨alone, after, only⟩ := ParameterSet.put_possible sound.depot backs grows aBacked bBacked
        done cell filled encoded
      have agree := ParameterSet.put_collapses sound.depot backs grows aBacked bBacked apart done again
        alone after only
      refine ⟨alone, after, only, ?_, by rw [agree]⟩
      simp [ParameterSet.sameContent, agree]
    · intro path query here there both late swapped last read otherRead notInside notAbove puts
        otherPuts apart otherApart
      obtain ⟨first, early, done, again⟩ := set.put_both_ok _ _ _ _ _ _ _ both late puts
      obtain ⟨second, middle, otherDone, otherAgain⟩ :=
        set.put_both_ok _ _ _ _ _ _ _ swapped last otherPuts
      have agree := ParameterSet.put_commutes sound.depot backs grows aBacked bBacked apart otherApart
        here there read otherRead notInside notAbove done again second swapped middle last otherDone
        otherAgain
      simp [ParameterSet.sameContent, agree]

theorem puts_independent_branching :
    branching.Reachable ∧ ∃ set, branching.sets.lookup ['p'] = some set ∧
      (∃ cell same, set.find (branching.homeOf set) ['s', '[', '0', ']'] = .ok cell ∧
        set.put branching.depot .cell ['s', '[', '0', ']'] true cell =
          ((same, branching.depot), .ok ()) ∧ same.id = set.id) ∧
      (∃ both late alone after,
        set.putBoth branching.depot .bool .nil ['a', '.', 'b'] ['a', '.', 'b'] false () =
          ((both, late), .ok ()) ∧
        set.put branching.depot .nil ['a', '.', 'b'] true () = ((alone, after), .ok ()) ∧
        both.id = alone.id) ∧
      ∃ both late swapped last,
        set.putBoth branching.depot .bool (.list .bool) ['a', '.', 'b']
          ['s', '[', '0', ']', '.', 'c'] false [true] = ((both, late), .ok ()) ∧
        set.putBoth branching.depot (.list .bool) .bool ['s', '[', '0', ']', '.', 'c']
          ['a', '.', 'b'] [true] false = ((swapped, last), .ok ()) ∧ both.id = swapped.id := by
  have reachable : branching.Reachable :=
    leads_run .empty .empty .refl _ (permits_plain _ _ (by simp [Operation.sets, Ty.setsIn]))
  have checked : (branching.sets.lookup ['p']).any (fun set =>
      decide (set.contains (branching.homeOf set) ['s', '[', '0', ']'] = true ∧
        Entries.Apart (set.involved branching.depot .bool ['a', '.', 'b'] true false) ∧
        Entries.Apart (set.involved branching.depot (.list .bool) ['s', '[', '0', ']', '.', 'c'] true
          [true]) ∧
        (set.putBoth branching.depot .bool .nil ['a', '.', 'b'] ['a', '.', 'b'] false ()).2 = .ok () ∧
        (set.putBoth branching.depot .bool (.list .bool) ['a', '.', 'b']
          ['s', '[', '0', ']', '.', 'c'] false [true]).2 = .ok () ∧
        (set.putBoth branching.depot (.list .bool) .bool ['s', '[', '0', ']', '.', 'c']
          ['a', '.', 'b'] [true] false).2 = .ok ())) = true := by decide +kernel
  obtain ⟨set, found, decided⟩ := (Option.any_eq_true _ _).mp checked
  obtain ⟨present, apart, otherApart, twice, inOrder, turned⟩ := of_decide_eq_true decided
  have grows := Depot.grows_refl branching.depot (reachable_sound branching reachable).depot
  obtain ⟨back, independent⟩ := puts_independent branching reachable ['p'] set found
  refine ⟨reachable, set, found, ?_, ?_,
    _, _, _, _, Prod.ext rfl inOrder, Prod.ext rfl turned, ?_⟩
  · rw [ParameterSet.contains] at present
    cases leads : set.find (branching.homeOf set) ['s', '[', '0', ']'] with
    | error error =>
      rw [leads] at present
      cases present
    | ok cell =>
      obtain ⟨same, done, _, identified⟩ := back ['s', '[', '0', ']'] cell leads
      exact ⟨cell, same, rfl, done, identified⟩
  · obtain ⟨collapses, _⟩ := independent .bool .nil false () (by simp [Lends, Ty.setsIn])
      (by simp [Lends, Ty.setsIn]) branching.depot grows
    obtain ⟨alone, after, only, _, identified⟩ := collapses ['a', '.', 'b'] _ _ (Prod.ext rfl twice)
      apart Cell.nil branching.depot rfl
    exact ⟨_, _, alone, after, Prod.ext rfl twice, only, identified⟩
  · obtain ⟨_, commutes⟩ := independent .bool (.list .bool) false [true] (by simp [Lends, Ty.setsIn])
      (by simp [Lends, Ty.setsIn]) branching.depot grows
    exact (commutes ['a', '.', 'b'] ['s', '[', '0', ']', '.', 'c'] ⟨['a'], [.key ['b']]⟩
      ⟨['s'], [.index 0, .key ['c']]⟩ _ _ _ _ (by with_unfolding_all rfl)
      (by with_unfolding_all rfl) (by decide) (by decide) (Prod.ext rfl inOrder)
      (Prod.ext rfl turned) apart otherApart).2

end Session
end ParamStore

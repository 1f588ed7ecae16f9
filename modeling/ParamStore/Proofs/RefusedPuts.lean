import ParamStore.Proofs.PathUpdates

set_option autoImplicit false

namespace ParamStore
namespace Store

def behind (store : Store) (slot : Option Cell) (segment : Segment) : Option Cell :=
  slot.bind fun cell => (store.follow [] [segment] cell).toOption

-- A missing cell counts as an empty container.
def refusal? (path : Text) : Segment → Option Cell → Option Error
  | .key _, none => none
  | .key _, some (.table _) => none
  | .index index, none => if 0 < index then some (.cantFind path) else none
  | .index index, some (.sequence items) =>
    if items.length < index then some (.cantFind path) else none
  | step, some other => some (.typeMismatch (.blocked step path other.shape))

def obstacle? (store : Store) (path : Text) : List Segment → Option Cell → Option Error
  | [], _ => none
  | step :: rest, slot =>
    match refusal? path step slot with
    | some error => some error
    | none => obstacle? store path rest (store.behind slot step)

-- Putting a cell while each table on the way is stored as soon as it is changed. What was stored stays when the
-- walk fails.
def placing (path : Text) (overwrite : Bool) (cell : Cell) :
    List Segment → Option Cell → Store → Store × Except Error Cell
  | [], slot, store =>
    (store, if slot.isSome ∧ overwrite = false then .error (.cantInsert path) else .ok cell)
  | .key name :: rest, slot, store =>
    match store.tableAt path (.key name) slot with
    | .error error => (store, .error error)
    | .ok entries =>
      match placing path overwrite cell rest (entries.lookup name) store with
      | (filled, .error error) => (filled, .error error)
      | (filled, .ok inner) =>
        let (id, stored) := filled.intern (entries.put name inner)
        (stored, .ok (.table id))
  | .index index :: rest, slot, store =>
    match sequenceAt path (.index index) slot with
    | .error error => (store, .error error)
    | .ok items =>
      if items.length < index then (store, .error (.cantFind path))
      else
        let (filled, placed) := placing path overwrite cell rest items[index]? store
        (filled, placed.map fun inner => .sequence
          (if index = items.length then items ++ [inner] else items.set index inner))

-- Nothing can fail once a table was stored.
theorem placing_place (path : Text) (overwrite : Bool) (cell : Cell) (segments : List Segment)
    (slot : Option Cell) (store : Store) :
    placing path overwrite cell segments slot store =
      match place path overwrite cell segments slot store with
      | .ok (placed, filled) => (filled, .ok placed)
      | .error error => (store, .error error) := by
  induction segments generalizing slot with
  | nil =>
    rw [placing, place]
    split <;> rfl
  | cons segment rest ih =>
    cases segment with
    | key name =>
      rw [placing, place]
      cases store.tableAt path (.key name) slot with
      | error error => rfl
      | ok entries =>
        simp only [ih, bind, Except.bind]
        cases place path overwrite cell rest (entries.lookup name) store <;> rfl
    | index index =>
      rw [placing, place]
      cases sequenceAt path (.index index) slot with
      | error error => rfl
      | ok items =>
        simp only [ih, bind, Except.bind]
        split
        · rfl
        · cases place path overwrite cell rest items[index]? store with
          | error error => rfl
          | ok placed => simp only [Except.map]; split <;> rfl

theorem behind_entry (store : Store) (id : Identifier) (entries : Entries)
    (read : store.lookup id = some entries) (name : Text) :
    store.behind (some (.table id)) (.key name) = entries.lookup name := by
  simp only [behind, Option.bind_some, follow, Store.entries, read, bind, Except.bind]
  cases entries.lookup name <;> rfl

theorem behind_item (store : Store) (items : List Cell) (index : Nat) :
    store.behind (some (.sequence items)) (.index index) = items[index]? := by
  simp only [behind, Option.bind_some, follow]
  cases items[index]? <;> rfl

theorem finds_step (store : Store) (path : Text) (step : Segment) (rest : List Segment)
    (slot : Option Cell) (found : Cell) :
    store.Finds path (step :: rest) slot found ↔ store.Finds path rest (store.behind slot step) found := by
  cases slot with
  | none => simp [Finds, behind]
  | some cell =>
    rw [finds_some]
    cases step with
    | key name =>
      cases cell with
      | table id =>
        cases read : store.lookup id with
        | none => simp [follow, Store.entries, read, behind, Finds, bind, Except.bind, Except.toOption]
        | some entries =>
          rw [follow_table store path name rest id entries read, behind_entry store id entries read]
      | _ => simp [follow, behind, Finds, Except.toOption]
    | index place =>
      cases cell with
      | sequence items => rw [follow_sequence, behind_item]
      | _ => simp [follow, behind, Finds, Except.toOption]

theorem finds_taken (store : Store) (path : Text) (step : Segment) (rest : List Segment)
    (slot : Option Cell) (found : Cell) (leads : store.Finds path (step :: rest) slot found) :
    refusal? path step slot = none := by
  obtain ⟨cell, rfl, followed⟩ := leads
  cases step with
  | key name =>
    cases cell with
    | table id => rfl
    | _ => cases followed
  | index place =>
    cases cell with
    | sequence items =>
      obtain ⟨inner, present, _⟩ := (follow_sequence store path place rest items found).mp followed
      have inside := (List.getElem?_eq_some_iff.mp present).1
      rw [refusal?, if_neg (Nat.not_lt_of_gt inside)]
    | _ => cases followed

theorem behind_holds (store : Store) (grown : Grown store.contents) (slot : Option Cell)
    (held : store.HoldsSlot slot) (step : Segment) : store.HoldsSlot (store.behind slot step) := by
  intro inner present id named
  cases slot with
  | none => cases present
  | some cell =>
    cases step with
    | key name =>
      cases cell with
      | table stored =>
        obtain ⟨entries, read⟩ := (contains_iff store stored).mp
          (held _ rfl stored (List.mem_singleton_self stored))
        rw [behind_entry store stored entries read] at present
        exact grown_holds store grown stored entries read id
          (Entries.lookup_tables entries name inner present id named)
      | _ => cases present
    | index place =>
      cases cell with
      | sequence items =>
        rw [behind_item] at present
        exact held _ rfl id ((Cell.mem_item_tables items id).mpr
          ⟨inner, List.mem_of_getElem? present, named⟩)
      | _ => cases present

variable (before store : Store) (path : Text)

theorem table_at_taken (keeps : Keeps before store) (name : Text) (slot : Option Cell)
    (held : before.HoldsSlot slot) (taken : refusal? path (.key name) slot = none) :
    ∃ entries, store.tableAt path (.key name) slot = .ok entries ∧
      entries.lookup name = before.behind slot (.key name) := by
  cases slot with
  | none => exact ⟨.empty, rfl, rfl⟩
  | some cell =>
    cases cell with
    | table id =>
      obtain ⟨entries, read⟩ := (contains_iff before id).mp
        (held _ rfl id (List.mem_singleton_self id))
      refine ⟨entries, ?_, (behind_entry before id entries read name).symm⟩
      rw [tableAt, Store.entries, keeps id entries read]
    | _ => cases taken

theorem sequence_at_taken (index : Nat) (slot : Option Cell)
    (taken : refusal? path (.index index) slot = none) :
    ∃ items, sequenceAt path (.index index) slot = .ok items ∧ index ≤ items.length ∧
      items[index]? = before.behind slot (.index index) := by
  cases slot with
  | none =>
    have first : index = 0 := by simpa [refusal?] using taken
    exact ⟨[], rfl, Nat.le_of_eq first, rfl⟩
  | some cell =>
    cases cell with
    | sequence items =>
      have bound : index ≤ items.length := by simpa [refusal?] using taken
      exact ⟨items, rfl, bound, (behind_item before items index).symm⟩
    | _ => cases taken

theorem place_taken (keeps : Keeps before store) (cell : Cell) (step : Segment) (rest : List Segment)
    (slot : Option Cell) (held : before.HoldsSlot slot) (taken : refusal? path step slot = none) :
    ∃ finish : Cell × Store → Cell × Store, ∀ overwrite,
      place path overwrite cell (step :: rest) slot store =
        (place path overwrite cell rest (before.behind slot step) store).map finish := by
  cases step with
  | key name =>
    obtain ⟨entries, reached, inside⟩ := table_at_taken before store path keeps name slot held taken
    refine ⟨fun placed => (.table (entries.put name placed.1).identifier,
      (placed.2.intern (entries.put name placed.1)).2), fun overwrite => ?_⟩
    simp only [place, reached, inside, bind, Except.bind]
    cases place path overwrite cell rest (before.behind slot (.key name)) store <;> rfl
  | index index =>
    obtain ⟨items, reached, bound, inside⟩ := sequence_at_taken before path index slot taken
    refine ⟨fun placed => (.sequence (if index = items.length then items ++ [placed.1]
      else items.set index placed.1), placed.2), fun overwrite => ?_⟩
    simp only [place, reached, inside, bind, Except.bind, if_neg (Nat.not_lt.mpr bound)]
    cases place path overwrite cell rest (before.behind slot (.index index)) store with
    | error error => rfl
    | ok placed => simp only [Except.map]; split <;> rfl

theorem place_refused (overwrite : Bool) (cell : Cell) (step : Segment) (rest : List Segment)
    (slot : Option Cell) (error : Error) (refused : refusal? path step slot = some error) :
    place path overwrite cell (step :: rest) slot store = .error error := by
  cases step with
  | key name =>
    cases slot with
    | none => cases refused
    | some found =>
      cases found with
      | table id => cases refused
      | _ => cases refused; rfl
  | index index =>
    cases slot with
    | none =>
      simp only [refusal?, Option.ite_none_right_eq_some, Option.some.injEq] at refused
      obtain ⟨beyond, rfl⟩ := refused
      simp only [place, sequenceAt, List.length_nil, if_pos beyond, bind, Except.bind]
    | some found =>
      cases found with
      | sequence items =>
        simp only [refusal?, Option.ite_none_right_eq_some, Option.some.injEq] at refused
        obtain ⟨beyond, rfl⟩ := refused
        simp only [place, sequenceAt, if_pos beyond, bind, Except.bind]
      | _ => cases refused; rfl

-- The induction is on the steps, whose slots hold only stored tables. Where one cannot be taken the walk ends
-- with its answer, and else it comes to the place.
theorem place_blocked (grown : Grown before.contents) (keeps : Keeps before store) (overwrite : Bool)
    (cell : Cell) (segments : List Segment) (slot : Option Cell) (held : before.HoldsSlot slot)
    (error : Error) (blocked : before.obstacle? path segments slot = some error) :
    place path overwrite cell segments slot store = .error error := by
  induction segments generalizing slot with
  | nil => cases blocked
  | cons step rest ih =>
    rw [obstacle?] at blocked
    cases refused : refusal? path step slot with
    | some cause =>
      simp only [refused, Option.some.injEq] at blocked
      rw [place_refused store path overwrite cell step rest slot cause refused, blocked]
    | none =>
      simp only [refused] at blocked
      obtain ⟨finish, finished⟩ := place_taken before store path keeps cell step rest slot held refused
      rw [finished, ih (before.behind slot step) (behind_holds before grown slot held step) blocked]
      rfl

theorem place_clear (grown : Grown before.contents) (keeps : Keeps before store) (cell : Cell)
    (segments : List Segment) (slot : Option Cell) (held : before.HoldsSlot slot)
    (clear : before.obstacle? path segments slot = none) :
    ∃ placed, place path true cell segments slot store = .ok placed := by
  induction segments generalizing slot with
  | nil => exact ⟨(cell, store), by simp [place]⟩
  | cons step rest ih =>
    rw [obstacle?] at clear
    cases refused : refusal? path step slot with
    | some cause => simp [refused] at clear
    | none =>
      simp only [refused] at clear
      obtain ⟨finish, finished⟩ := place_taken before store path keeps cell step rest slot held refused
      obtain ⟨placed, below⟩ := ih (before.behind slot step) (behind_holds before grown slot held step) clear
      exact ⟨finish placed, by rw [finished, below]; rfl⟩

theorem place_present (grown : Grown before.contents) (keeps : Keeps before store) (cell : Cell)
    (segments : List Segment) (slot : Option Cell) (held : before.HoldsSlot slot) (found : Cell)
    (leads : before.Finds path segments slot found) :
    place path false cell segments slot store = .error (.cantInsert path) := by
  induction segments generalizing slot with
  | nil =>
    obtain ⟨old, rfl, _⟩ := leads
    simp [place]
  | cons step rest ih =>
    have taken := finds_taken before path step rest slot found leads
    obtain ⟨finish, finished⟩ := place_taken before store path keeps cell step rest slot held taken
    rw [finished, ih (before.behind slot step) (behind_holds before grown slot held step)
      ((finds_step before path step rest slot found).mp leads)]
    rfl

theorem place_missing (grown : Grown before.contents) (keeps : Keeps before store) (cell : Cell)
    (segments : List Segment) (slot : Option Cell) (held : before.HoldsSlot slot)
    (missing : ∀ found, ¬ before.Finds path segments slot found) :
    place path false cell segments slot store = place path true cell segments slot store := by
  induction segments generalizing slot with
  | nil =>
    cases slot with
    | none => simp [place]
    | some old => exact absurd ⟨old, rfl, rfl⟩ (missing old)
  | cons step rest ih =>
    cases refused : refusal? path step slot with
    | some cause =>
      rw [place_refused store path false cell step rest slot cause refused,
        place_refused store path true cell step rest slot cause refused]
    | none =>
      obtain ⟨finish, finished⟩ := place_taken before store path keeps cell step rest slot held refused
      rw [finished, finished,
        ih (before.behind slot step) (behind_holds before grown slot held step) fun found leads =>
          missing found ((finds_step before path step rest slot found).mpr leads)]

theorem obstacle_other (segments : List Segment) (slot : Option Cell) :
    before.obstacle? path segments slot ≠ some (.cantInsert path) := by
  fun_induction before.obstacle? path segments slot with
  | case1 => simp
  | case2 slot step rest error refused =>
    intro same
    cases same
    unfold refusal? at refused
    split at refused <;> simp at refused
  | case3 slot step rest taken ih => exact ih

end Store

namespace ParameterSet

def placing (set : ParameterSet) (path : Text) (overwrite : Bool) (cell : Cell) (store : Store) :
    Store × Except Error ParameterSet :=
  match Path.read path with
  | .error error => (store, .error error)
  | .ok parsed =>
    let (filled, placed) :=
      Store.placing path overwrite cell parsed.rest (set.entries.lookup parsed.root) store
    (filled, placed.map fun placed => set.withEntries (set.entries.put parsed.root placed))

theorem placing_failed (set : ParameterSet) (path : Text) (overwrite : Bool) (cell : Cell) (store : Store)
    (error : Error) (failed : set.place store path overwrite cell = .error error) :
    set.placing path overwrite cell store = (store, .error error) := by
  rw [place] at failed
  rw [placing]
  cases read : Path.read path with
  | error cause =>
    rw [read] at failed
    cases failed
    rfl
  | ok parsed =>
    simp only [read, bind, Except.bind] at failed
    simp only [Store.placing_place]
    cases placed : Store.place path overwrite cell parsed.rest (set.entries.lookup parsed.root) store with
    | ok result =>
      rw [placed] at failed
      cases failed
    | error cause =>
      rw [placed] at failed
      cases failed
      rfl

theorem put_placed (depot : Depot) (set : ParameterSet) (ty : Ty) (path : Text) (parsed : Path)
    (read : Path.read path = .ok parsed) (overwrite : Bool) (value : ty.Value) (cell : Cell)
    (filled : Depot) (encoded : ty.encode set.home value depot = .ok (cell, filled)) :
    set.put depot ty path overwrite value =
      match Store.place path overwrite cell parsed.rest (set.entries.lookup parsed.root)
        (filled.store set.home) with
      | .ok (placed, store) => ((set.withEntries (set.entries.put parsed.root placed),
          filled.setStore set.home store), .ok ())
      | .error error => ((set, filled), .error error) := by
  simp only [put, encoded, place, read, bind, Except.bind]
  cases Store.place path overwrite cell parsed.rest (set.entries.lookup parsed.root)
    (filled.store set.home) <;> rfl

theorem put_error (depot : Depot) (set : ParameterSet) (ty : Ty) (path : Text) (overwrite : Bool)
    (value : ty.Value) (changed : ParameterSet) (after : Depot) (error : Error)
    (failed : set.put depot ty path overwrite value = ((changed, after), .error error)) :
    changed = set ∧ ((ty.encode set.home value depot = .error error ∧ after = depot) ∨
      ∃ cell, ty.encode set.home value depot = .ok (cell, after) ∧
        set.place (after.store set.home) path overwrite cell = .error error) := by
  rw [put] at failed
  split at failed
  · rename_i cause encoded
    cases failed
    exact ⟨rfl, .inl ⟨encoded, rfl⟩⟩
  · rename_i cell filled encoded
    split at failed
    · rename_i cause refused
      cases failed
      exact ⟨rfl, .inr ⟨cell, encoded, refused⟩⟩
    · cases failed

-- The walk is through the set as it was, since encoding the value only adds to what is stored.
structure PutEnds (depot : Depot) (set : ParameterSet) (ty : Ty) (path : Text) (parsed : Path)
    (value : ty.Value) : Prop where
  blocked : ∀ error, (depot.store set.home).obstacle? path parsed.rest
      (set.entries.lookup parsed.root) = some error →
    (set.put depot ty path true value).2 = .error error
  clear : (depot.store set.home).obstacle? path parsed.rest (set.entries.lookup parsed.root) = none →
    (set.put depot ty path true value).2 = .ok ()
  present : ∀ leaf, set.find (depot.store set.home) path = .ok leaf →
    (set.put depot ty path false value).2 = .error (.cantInsert path)
  missing : (∀ leaf, set.find (depot.store set.home) path ≠ .ok leaf) →
    set.put depot ty path false value = set.put depot ty path true value

theorem put_ends (depot : Depot) (sound : depot.Sound) (set : ParameterSet) (backs : depot.Backs set)
    (ty : Ty) (path : Text) (parsed : Path) (read : Path.read path = .ok parsed) (value : ty.Value)
    (cell : Cell) (filled : Depot) (encoded : ty.encode set.home value depot = .ok (cell, filled))
    (grows : Depot.Grows depot filled) : PutEnds depot set ty path parsed value := by
  have grown := sound set.home
  have keeps := (grows.stores set.home).keeps
  have held := Depot.backs_slot depot set backs parsed.root
  have placed := fun overwrite =>
    set.put_placed depot ty path parsed read overwrite value cell filled encoded
  have leads := set.find_ok (depot.store set.home) path parsed read
  refine ⟨fun error blocked => ?_, fun clear => ?_, fun leaf found => ?_, fun missing => ?_⟩
  · rw [placed, Store.place_blocked _ _ path grown keeps true cell parsed.rest _ held error blocked]
  · obtain ⟨made, done⟩ := Store.place_clear _ _ path grown keeps cell parsed.rest _ held clear
    rw [placed, done]
  · rw [placed, Store.place_present _ _ path grown keeps cell parsed.rest _ held leaf
      ((leads leaf).mp found)]
  · rw [placed, placed, Store.place_missing _ _ path grown keeps cell parsed.rest _ held
      fun leaf found => missing leaf ((leads leaf).mpr found)]

theorem put_new_iff (depot : Depot) (set : ParameterSet) (ty : Ty) (path : Text) (parsed : Path)
    (value : ty.Value) (ends : PutEnds depot set ty path parsed value) :
    (set.put depot ty path false value).2 = .error (.cantInsert path) ↔
      ∃ leaf, set.find (depot.store set.home) path = .ok leaf := by
  constructor
  · intro refused
    apply Classical.byContradiction
    intro nothing
    rw [ends.missing fun leaf found => nothing ⟨leaf, found⟩] at refused
    cases obstacle : (depot.store set.home).obstacle? path parsed.rest (set.entries.lookup parsed.root) with
    | none => cases (ends.clear obstacle).symm.trans refused
    | some error =>
      cases (ends.blocked error obstacle).symm.trans refused
      exact Store.obstacle_other _ path parsed.rest _ obstacle
  · intro ⟨leaf, found⟩
    exact ends.present leaf found

end ParameterSet

namespace Session

theorem put_refused (session : Session) (reachable : session.Reachable) (name : Text)
    (set : ParameterSet) (found : session.sets.lookup name = some set) (ty : Ty) (value : ty.Value)
    (live : ∀ used ∈ ty.setsIn value, ∃ known, session.sets.lookup known = some used) (path : Text) :
    (∀ cell filled parsed, ty.encode set.home value session.depot = .ok (cell, filled) →
      Path.read path = .ok parsed →
      (set.put session.depot ty path true value).2 =
          (match (session.homeOf set).obstacle? path parsed.rest (set.entries.lookup parsed.root) with
            | some error => .error error
            | none => .ok ()) ∧
        ((set.put session.depot ty path false value).2 = .error (.cantInsert path) ↔
          ∃ leaf, set.find (session.homeOf set) path = .ok leaf) ∧
        ((∀ leaf, set.find (session.homeOf set) path ≠ .ok leaf) →
          set.put session.depot ty path false value = set.put session.depot ty path true value)) ∧
      ∀ overwrite changed after error,
        set.put session.depot ty path overwrite value = ((changed, after), .error error) →
          changed = set ∧ changed.text (after.store set.home) = set.text (session.homeOf set) ∧
            ((ty.encode set.home value session.depot = .error error ∧ after = session.depot) ∨
              ∃ cell, ty.encode set.home value session.depot = .ok (cell, after) ∧
                set.placing path overwrite cell (after.store set.home) =
                  (after.store set.home, .error error)) := by
  have sound := reachable_sound session reachable
  have backs := sound.sets name set found
  have backed : ∀ used ∈ ty.setsIn value, session.depot.Backs used := by
    intro used member
    obtain ⟨known, present⟩ := live used member
    exact sound.sets known used present
  have encoding := fun cell filled encoded =>
    (Ty.encode_grows set.home ty value session.depot cell filled sound.depot backs.home backed encoded).1
  constructor
  · intro cell filled parsed encoded read
    have ends := set.put_ends session.depot sound.depot backs ty path parsed read value cell filled encoded
      (encoding cell filled encoded)
    refine ⟨?_, set.put_new_iff session.depot ty path parsed value ends, ends.missing⟩
    split
    · rename_i error obstacle
      exact ends.blocked error obstacle
    · rename_i obstacle
      exact ends.clear obstacle
  · intro overwrite changed after error failed
    obtain ⟨rfl, left⟩ := set.put_error session.depot ty path overwrite value changed after error failed
    rcases left with ⟨refused, rfl⟩ | ⟨cell, encoded, stuck⟩
    · exact ⟨rfl, rfl, .inl ⟨refused, rfl⟩⟩
    · have alike := Depot.grows_alike session.depot after sound.depot (encoding cell after encoded) changed
        backs
      exact ⟨rfl, alike.text, .inr ⟨cell, encoded, changed.placing_failed path overwrite cell _ error stuck⟩⟩

def hosting : Session :=
  Session.empty.run [.openStore ['r'], .openStore ['s'], .create ['p'] ['r'], .create ['q'] ['s'],
    .put ['p'] ['a', '.', 'b'] .bool true, .put ['p'] ['l', '[', '0', ']'] .nil (),
    .put ['q'] ['x', '.', 'y'] .bool false]

theorem put_refused_hosting :
    hosting.Reachable ∧ ∃ p q, hosting.sets.lookup ['p'] = some p ∧ hosting.sets.lookup ['q'] = some q ∧
      (p.put hosting.depot .set ['a', '.', 'b', '.', 'c'] true q).2 =
        .error (.typeMismatch (.blocked (.key ['c']) ['a', '.', 'b', '.', 'c'] .bool)) ∧
      (p.put hosting.depot .set ['l', '[', '2', ']', '.', 'z'] true q).2 =
        .error (.cantFind ['l', '[', '2', ']', '.', 'z']) ∧
      (p.put hosting.depot .set ['a'] false q).2 = .error (.cantInsert ['a']) ∧
      ∃ cell after error, Ty.set.encode p.home q hosting.depot = .ok (cell, after) ∧
        p.put hosting.depot .set ['a'] false q = ((p, after), .error error) ∧
        p.placing ['a'] false cell (after.store p.home) = (after.store p.home, .error error) := by
  have reachable : hosting.Reachable :=
    leads_run .empty .empty .refl _ (permits_plain _ _ (by simp [Operation.sets, Ty.setsIn]))
  have checked : (hosting.sets.lookup ['p']).any (fun p => (hosting.sets.lookup ['q']).any fun q =>
      decide ((hosting.homeOf p).obstacle? ['a', '.', 'b', '.', 'c'] [.key ['b'], .key ['c']]
          (p.entries.lookup ['a']) =
        some (.typeMismatch (.blocked (.key ['c']) ['a', '.', 'b', '.', 'c'] .bool)) ∧
      (hosting.homeOf p).obstacle? ['l', '[', '2', ']', '.', 'z'] [.index 2, .key ['z']]
          (p.entries.lookup ['l']) = some (.cantFind ['l', '[', '2', ']', '.', 'z']) ∧
      p.contains (hosting.homeOf p) ['a'] = true ∧
      (Ty.set.encode p.home q hosting.depot).isOk = true)) = true := by decide +kernel
  obtain ⟨p, found, inner⟩ := (Option.any_eq_true _ _).mp checked
  obtain ⟨q, lent, decided⟩ := (Option.any_eq_true _ _).mp inner
  obtain ⟨inside, beyond, present, encodes⟩ := of_decide_eq_true decided
  have live : ∀ used ∈ Ty.set.setsIn q, ∃ known, hosting.sets.lookup known = some used := by
    intro used member
    rw [List.mem_singleton.mp member]
    exact ⟨['q'], lent⟩
  have each := fun path => put_refused hosting reachable ['p'] p found .set q live path
  cases encoded : Ty.set.encode p.home q hosting.depot with
  | error error =>
    rw [encoded] at encodes
    cases encodes
  | ok result =>
    obtain ⟨cell, filled⟩ := result
    obtain ⟨first, _⟩ := (each ['a', '.', 'b', '.', 'c']).1 cell filled
      ⟨['a'], [.key ['b'], .key ['c']]⟩ encoded (by with_unfolding_all rfl)
    obtain ⟨second, _⟩ := (each ['l', '[', '2', ']', '.', 'z']).1 cell filled
      ⟨['l'], [.index 2, .key ['z']]⟩ encoded (by with_unfolding_all rfl)
    obtain ⟨_, third, _⟩ := (each ['a']).1 cell filled ⟨['a'], []⟩ encoded (by with_unfolding_all rfl)
    rw [inside] at first
    rw [beyond] at second
    have refused : (p.put hosting.depot .set ['a'] false q).2 = .error (.cantInsert ['a']) := by
      apply third.mpr
      rw [ParameterSet.contains] at present
      cases leads : p.find (hosting.homeOf p) ['a'] with
      | ok leaf => exact ⟨leaf, rfl⟩
      | error error =>
        rw [leads] at present
        cases present
    obtain ⟨changed, after, done⟩ : ∃ changed after, p.put hosting.depot .set ['a'] false q =
      ((changed, after), .error (.cantInsert ['a'])) := ⟨_, _, Prod.ext rfl refused⟩
    obtain ⟨same, _, left⟩ := (each ['a']).2 false changed after _ done
    rw [same] at done
    rcases left with ⟨never, _⟩ | ⟨other, again, stays⟩
    · cases never.symm.trans encoded
    · cases again.symm.trans encoded
      exact ⟨reachable, p, q, found, lent, first, second, refused, cell, filled, _, encoded, done, stays⟩

end Session
end ParamStore

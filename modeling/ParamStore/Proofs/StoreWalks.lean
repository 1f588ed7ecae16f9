import ParamStore.Proofs.StoreCopies
import ParamStore.Proofs.SessionRuns
import ParamStore.Proofs.StoreViews

set_option autoImplicit false

namespace ParamStore
namespace Store

def Names (store : Store) (child parent : Identifier) : Prop :=
  ∃ entries, store.lookup parent = some entries ∧ child ∈ entries.tables

theorem names_held (store : Store) (grown : Grown store.contents) (child parent : Identifier)
    (names : store.Names child parent) : store.contains child = true := by
  obtain ⟨entries, found, named⟩ := names
  exact grown_holds store grown parent entries found child named

-- The induction is on the history of the store. What the newest content names is older.
theorem names_well_founded (contents : List (Identifier × Entries)) (grown : Grown contents) :
    WellFounded (Names ⟨contents⟩) := by
  induction grown with
  | nil => exact ⟨fun id => .intro id fun child ⟨_, found, _⟩ => by cases found⟩
  | cons newest older below fresh closed ih =>
    have keeps := keeps_newest newest older fresh
    have settled : ∀ id, contains ⟨older⟩ id = true →
        Acc (Names ⟨(newest.identifier, newest) :: older⟩) id := by
      intro id stored
      induction ih.apply id with
      | intro id _ later =>
        obtain ⟨entries, before⟩ := (contains_iff ⟨older⟩ id).mp stored
        refine .intro id fun child ⟨now, found, named⟩ => ?_
        have same := Option.some.inj ((keeps id entries before).symm.trans found)
        have names : Names ⟨older⟩ child id := ⟨entries, before, same ▸ named⟩
        exact later child names (names_held ⟨older⟩ below child id names)
    refine ⟨fun id => .intro id fun child ⟨entries, found, named⟩ => settled child ?_⟩
    by_cases same : id = newest.identifier
    · have exact : newest = entries := by simpa [lookup, lookupIn, same] using found
      exact closed child (exact ▸ named)
    · have before : lookup ⟨older⟩ id = some entries := by
        simpa [lookup, lookupIn, same] using found
      exact grown_holds ⟨older⟩ below id entries before child named

namespace View

variable {α : Type} (view : View α)

-- Shows a table from the whole store. `missing` is shown for a table that is not stored, `beyond` where
-- the tables lie deeper than the walk may go.
def walk (store : Store) (missing beyond : Identifier → α) : Nat → Identifier → α
  | 0, id => beyond id
  | depth + 1, id =>
    match store.lookup id with
    | none => missing id
    | some entries => view.content (walk store missing beyond depth) entries

-- The induction is on the contents from which the table was taken; the walk always sees the whole store.
theorem walk_older (store : Store) (missing beyond : Identifier → α)
    (older : List (Identifier × Entries)) (grown : Grown older) (keeps : Keeps ⟨older⟩ store)
    (id : Identifier) (stored : (lookupIn id older).isSome) (depth : Nat)
    (enough : older.length ≤ depth) :
    view.walk store missing beyond depth id = view.table older id := by
  induction grown generalizing id depth with
  | nil => cases stored
  | cons newest older below fresh closed ih =>
    have keepsOlder := keeps_trans _ _ store (keeps_newest newest older fresh) keeps
    rw [view.newest]
    by_cases same : id = newest.identifier
    · cases depth with
      | zero => cases enough
      | succ depth =>
        have found : store.lookup id = some newest := keeps id newest (by simp [lookup, lookupIn, same])
        rw [if_pos same, walk, found]
        refine view.congr _ _ newest fun child named => ?_
        exact ih keepsOlder child (closed child named) depth (Nat.le_of_succ_le_succ enough)
    · rw [if_neg same]
      exact ih keepsOlder id (by simpa [lookupIn, same] using stored) depth (Nat.le_of_succ_le enough)

theorem walk_stored (store : Store) (grown : Grown store.contents) (missing beyond : Identifier → α)
    (depth : Nat) (enough : store.size ≤ depth) (id : Identifier) (stored : store.contains id = true) :
    view.walk store missing beyond depth id = view.table store.contents id :=
  view.walk_older store missing beyond store.contents grown (keeps_refl store) id stored depth enough

theorem table_missing (contents : List (Identifier × Entries)) (id : Identifier)
    (absent : lookupIn id contents = none) : view.table contents id = view.table [] id := by
  induction contents with
  | nil => rfl
  | cons newest older ih =>
    have different : id ≠ newest.1 := by
      rintro rfl
      simp [lookupIn] at absent
    rw [view.newest, if_neg different]
    exact ih (by simpa [lookupIn, different] using absent)

theorem walk_table (store : Store) (grown : Grown store.contents) (beyond : Identifier → α)
    (depth : Nat) (enough : store.size < depth) (id : Identifier) :
    view.walk store (view.table []) beyond depth id = view.table store.contents id := by
  cases stored : store.contains id with
  | true => exact view.walk_stored store grown _ beyond depth (Nat.le_of_lt enough) id stored
  | false =>
    cases depth with
    | zero => cases enough
    | succ depth =>
      have absent : store.lookup id = none := by simpa [contains] using stored
      rw [walk, absent, view.table_missing store.contents id absent]

end View

def adoptWalk (source : Store) (missing beyond : Identifier → Except Error Store) :
    Nat → Store → Identifier → Except Error Store
  | 0, _, id => beyond id
  | depth + 1, target, id =>
    if target.contains id then .ok target
    else
      match source.lookup id with
      | none => missing id
      | some entries => do
        let filled ← entries.tables.foldlM
          (fun filled child => adoptWalk source missing beyond depth filled child) target
        return filled.insert id entries

theorem adopt_all_congr (copy other : Store → Identifier → Except Error Store)
    (ids : List Identifier) (same : ∀ id ∈ ids, ∀ target, copy target id = other target id)
    (target : Store) : ids.foldlM copy target = ids.foldlM other target := by
  induction ids generalizing target with
  | nil => rfl
  | cons first rest ih =>
    simp only [List.foldlM_cons, same first (List.mem_cons_self ..) target]
    congr 1
    funext next
    exact ih (fun id named => same id (List.mem_cons_of_mem _ named)) next

theorem adopt_taken (contents : List (Identifier × Entries)) (target : Store) (id : Identifier)
    (taken : target.contains id = true) : adopt contents target id = .ok target := by
  cases contents <;> simp [adopt, taken]

theorem adopt_walk_older (source : Store) (missing beyond : Identifier → Except Error Store)
    (older : List (Identifier × Entries)) (grown : Grown older) (keeps : Keeps ⟨older⟩ source)
    (id : Identifier) (stored : (lookupIn id older).isSome) (depth : Nat)
    (enough : older.length ≤ depth) (target : Store) :
    source.adoptWalk missing beyond depth target id = adopt older target id := by
  induction grown generalizing id depth target with
  | nil => cases stored
  | cons newest older below fresh closed ih =>
    have keepsOlder := keeps_trans _ _ source (keeps_newest newest older fresh) keeps
    by_cases same : id = newest.identifier
    · cases depth with
      | zero => cases enough
      | succ depth =>
        have found : source.lookup id = some newest := keeps id newest (by simp [lookup, lookupIn, same])
        have below := adopt_all_congr (source.adoptWalk missing beyond depth) (adopt older)
          newest.tables (fun child named before => ih keepsOlder child (closed child named) depth
            (Nat.le_of_succ_le_succ enough) before) target
        rw [adoptWalk, adopt, found, if_pos same]
        simp only [below]
    · have before := ih keepsOlder id (by simpa [lookupIn, same] using stored) depth
        (Nat.le_of_succ_le enough) target
      rw [before, adopt, if_neg same]
      -- A table that the target has is looked for nowhere.
      by_cases taken : target.contains id = true
      · rw [if_pos taken, adopt_taken older target id taken]
      · rw [if_neg taken]

theorem adopt_walk_stored (source : Store) (grown : Grown source.contents)
    (missing beyond : Identifier → Except Error Store) (depth : Nat) (enough : source.size ≤ depth)
    (entries : Entries) (holds : source.Holds entries.tables) (target : Store) :
    entries.tables.foldlM (source.adoptWalk missing beyond depth) target =
      source.adoptBelow target entries :=
  adopt_all_congr _ _ entries.tables (fun id named before => adopt_walk_older source missing beyond
    source.contents grown (keeps_refl source) id (holds id named) depth enough before) target

theorem reached_stored (store : Store) (grown : Grown store.contents) (roots : List Identifier)
    (held : store.Holds roots) (id : Identifier) (reached : Reaches store roots id) :
    store.contains id = true :=
  reached_held store store grown (fun _ _ _ here there => Option.some.inj (here.symm.trans there)) roots
    held id reached

structure Ends (store : Store) : Prop where
  acyclic : WellFounded store.Names
  -- Any cell is written, tables among it that are nowhere stored too.
  written : ∀ cell depth beyond, store.size < depth →
    cell.textWith (textView.walk store (tableText []) beyond depth) = store.cellText cell
  complete : ∀ roots, store.Holds roots → ∀ id, Reaches store roots id → store.contains id = true
  -- So a cell of stored tables is written and exported without a look at what stands for missing ones.
  cells : ∀ cell, store.Holds cell.tables → ∀ depth, store.size ≤ depth →
    (∀ missing beyond, cell.textWith (textView.walk store missing beyond depth) = store.cellText cell) ∧
    ∀ missing beyond, cell.jsonWith (jsonView.walk store missing beyond depth) = store.cellJson cell

theorem grown_ends (store : Store) (grown : Grown store.contents) : Ends store where
  acyclic := names_well_founded store.contents grown
  written cell depth beyond enough := Cell.text_with_congr _ _ cell fun id _ =>
    textView.walk_table store grown beyond depth enough id
  complete := reached_stored store grown
  cells cell held depth enough :=
    ⟨fun missing beyond => Cell.text_with_congr _ _ cell fun id named =>
        textView.walk_stored store grown missing beyond depth enough id (held id named),
      fun missing beyond => Cell.json_with_congr _ _ cell fun id named =>
        jsonView.walk_stored store grown missing beyond depth enough id (held id named)⟩

end Store

namespace ParameterSet

structure Ends (depot : Depot) (set : ParameterSet) : Prop where
  stored : (depot.store set.home).Holds set.entries.tables
  text : ∀ depth missing beyond, (depot.store set.home).size ≤ depth →
    set.entries.textWith (Store.textView.walk (depot.store set.home) missing beyond depth) =
      set.text (depot.store set.home)
  json : ∀ depth missing beyond, (depot.store set.home).size ≤ depth →
    (memberJsons (Store.jsonView.walk (depot.store set.home) missing beyond depth)
      set.entries.cells).map .object = set.json (depot.store set.home)
  copied : ∀ target, ∃ filled, Store.adoptBelow (depot.store set.home) (depot.store target) set.entries =
      .ok filled ∧ filled.Holds set.entries.tables ∧
    ∀ depth missing beyond, (depot.store set.home).size ≤ depth →
      set.entries.tables.foldlM ((depot.store set.home).adoptWalk missing beyond depth)
        (depot.store target) = .ok filled

theorem backs_ends (depot : Depot) (sound : depot.Sound) (set : ParameterSet)
    (backs : depot.Backs set) : Ends depot set where
  stored := backs.tables
  text depth missing beyond enough := Entries.text_with_congr _ _ set.entries fun id named =>
    Store.textView.walk_stored _ (sound set.home) missing beyond depth enough id (backs.tables id named)
  json depth missing beyond enough := Store.jsonView.congr _ _ set.entries fun id named =>
    Store.jsonView.walk_stored _ (sound set.home) missing beyond depth enough id (backs.tables id named)
  copied target := by
    obtain ⟨filled, copied, _, holds⟩ := Store.adopt_below_grows (depot.store set.home)
      (depot.store target) (sound set.home) (sound target) set.entries backs.tables
    refine ⟨filled, copied, holds, fun depth missing beyond enough => ?_⟩
    rw [Store.adopt_walk_stored (depot.store set.home) (sound set.home) missing beyond depth enough
      set.entries backs.tables]
    exact copied

end ParameterSet

namespace Session

theorem walks_end (session : Session) (reachable : session.Reachable) :
    (∀ number, (session.depot.store number).Ends) ∧
      ∀ name set, session.sets.lookup name = some set → set.Ends session.depot := by
  have sound := reachable_sound session reachable
  exact ⟨fun number => Store.grown_ends _ (sound.depot number),
    fun name set found => ParameterSet.backs_ends session.depot sound.depot set (sound.sets name set found)⟩

def layered : Session :=
  Session.empty.run [.openStore ['r'], .openStore ['s'], .create ['p'] ['r'],
    .put ['p'] ['a', '[', '0', ']', '.', 'b', '.', 'c'] .bool true, .keep ['s'] ['p'],
    .put ['p'] ['a', '[', '1', ']'] .nil ()]

theorem walks_end_layered :
    layered.Reachable ∧ layered.depot.stores.map Store.size = [2, 3] ∧
      (∃ set, layered.sets.lookup ['p'] = some set ∧
        ∀ beyond, set.entries.textWith
          (Store.textView.walk (layered.depot.store 0) (fun _ => []) beyond 2) =
            "a:[{b:{c:true}},nil]".toList) ∧
      WellFounded (layered.depot.store 1).Names := by
  have reachable : layered.Reachable :=
    leads_run .empty .empty .refl _ (permits_plain _ _ (by simp [Operation.sets, Ty.setsIn]))
  obtain ⟨stores, sets⟩ := walks_end layered reachable
  have shown : (layered.sets.lookup ['p']).map (fun set =>
      (set.home, set.text (layered.depot.store set.home), (layered.depot.store set.home).size)) =
        some (0, "a:[{b:{c:true}},nil]".toList, 2) := by decide +kernel
  obtain ⟨set, found, facts⟩ := Option.map_eq_some_iff.mp shown
  simp only [Prod.mk.injEq] at facts
  obtain ⟨home, text, size⟩ := facts
  have walked := (sets ['p'] set found).text 2
  rw [text, size, home] at walked
  exact ⟨reachable, by decide +kernel,
    ⟨set, found, fun beyond => walked (fun _ => []) beyond (Nat.le_refl 2)⟩, (stores 1).acyclic⟩

end Session
end ParamStore

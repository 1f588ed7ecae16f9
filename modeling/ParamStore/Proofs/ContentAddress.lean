import ParamStore.Proofs.FramingInjective
import ParamStore.Proofs.SessionRuns

set_option autoImplicit false

namespace ParamStore

-- What a cell stands for once every table is replaced by its content.
inductive Tree where
  | atom (atom : Atom)
  | sequence (items : List Tree)
  | table (entries : List (Text × Tree))

namespace Store

-- Cells name tables by identifiers and never hold them. Finite derivations replace the names by what
-- a store has under them.
mutual
inductive Unfolds (store : Store) : Cell → Tree → Prop where
  | atom (atom : Atom) : Unfolds store (.atom atom) (.atom atom)
  | sequence (items : List Cell) (trees : List Tree) (inside : ItemsUnfold store items trees) :
      Unfolds store (.sequence items) (.sequence trees)
  | table (id : Identifier) (entries : Entries) (trees : List (Text × Tree))
      (read : store.lookup id = some entries) (inside : MembersUnfold store entries.cells trees) :
      Unfolds store (.table id) (.table trees)
inductive ItemsUnfold (store : Store) : List Cell → List Tree → Prop where
  | nil : ItemsUnfold store [] []
  | cons (item : Cell) (tree : Tree) (tail : List Cell) (trees : List Tree)
      (first : Unfolds store item tree) (rest : ItemsUnfold store tail trees) :
      ItemsUnfold store (item :: tail) (tree :: trees)
inductive MembersUnfold (store : Store) : Keyed Cell → List (Text × Tree) → Prop where
  | nil : MembersUnfold store [] []
  | cons (key : Text) (cell : Cell) (tree : Tree) (tail : Keyed Cell) (trees : List (Text × Tree))
      (first : Unfolds store cell tree) (rest : MembersUnfold store tail trees) :
      MembersUnfold store ((key, cell) :: tail) ((key, tree) :: trees)
end

mutual
theorem unfolds_keeps (before after : Store) (keeps : Keeps before after) (cell : Cell) (tree : Tree)
    (unfolds : Unfolds before cell tree) : Unfolds after cell tree := by
  cases unfolds with
  | atom atom => exact .atom atom
  | sequence items trees inside =>
    exact .sequence items trees (items_unfold_keeps before after keeps items trees inside)
  | table id entries trees read inside =>
    exact .table id entries trees (keeps id entries read)
      (members_unfold_keeps before after keeps entries.cells trees inside)
theorem items_unfold_keeps (before after : Store) (keeps : Keeps before after) (items : List Cell)
    (trees : List Tree) (unfold : ItemsUnfold before items trees) :
    ItemsUnfold after items trees := by
  cases unfold with
  | nil => exact .nil
  | cons item tree tail trees first rest =>
    exact .cons item tree tail trees (unfolds_keeps before after keeps item tree first)
      (items_unfold_keeps before after keeps tail trees rest)
theorem members_unfold_keeps (before after : Store) (keeps : Keeps before after)
    (cells : Keyed Cell) (trees : List (Text × Tree)) (unfold : MembersUnfold before cells trees) :
    MembersUnfold after cells trees := by
  cases unfold with
  | nil => exact .nil
  | cons key cell tree tail trees first rest =>
    exact .cons key cell tree tail trees (unfolds_keeps before after keeps cell tree first)
      (members_unfold_keeps before after keeps tail trees rest)
end

mutual
theorem cell_unfolds (store : Store) (cell : Cell)
    (each : ∀ id ∈ cell.tables, ∃ tree, Unfolds store (.table id) tree) :
    ∃ tree, Unfolds store cell tree := by
  cases cell with
  | atom atom => exact ⟨_, .atom atom⟩
  | sequence items =>
    obtain ⟨trees, inside⟩ := items_unfold store items each
    exact ⟨_, .sequence items trees inside⟩
  | table id => exact each id (List.mem_singleton_self id)
theorem items_unfold (store : Store) (items : List Cell)
    (each : ∀ id ∈ Cell.itemTables items, ∃ tree, Unfolds store (.table id) tree) :
    ∃ trees, ItemsUnfold store items trees := by
  match items with
  | [] => exact ⟨[], .nil⟩
  | item :: tail =>
    obtain ⟨tree, first⟩ := cell_unfolds store item fun id named =>
      each id (List.mem_append_left _ named)
    obtain ⟨trees, rest⟩ := items_unfold store tail fun id named =>
      each id (List.mem_append_right _ named)
    exact ⟨_, .cons item tree tail trees first rest⟩
end

theorem members_unfold (store : Store) (cells : Keyed Cell)
    (each : ∀ entry ∈ cells, ∀ id ∈ entry.2.tables, ∃ tree, Unfolds store (.table id) tree) :
    ∃ trees, MembersUnfold store cells trees := by
  induction cells with
  | nil => exact ⟨[], .nil⟩
  | cons entry tail ih =>
    obtain ⟨tree, first⟩ := cell_unfolds store entry.2 (each entry (List.mem_cons_self ..))
    obtain ⟨trees, rest⟩ := ih fun other member => each other (List.mem_cons_of_mem _ member)
    exact ⟨_, .cons entry.1 entry.2 tree tail trees first rest⟩

-- The rank that ends the unfolding is the age of a content: its tables are older than it is.
theorem stored_unfolds (contents : List (Identifier × Entries)) (grown : Grown contents)
    (id : Identifier) (stored : (lookupIn id contents).isSome) :
    ∃ tree, Unfolds ⟨contents⟩ (.table id) tree := by
  induction grown generalizing id with
  | nil => cases stored
  | cons newest older below fresh closed ih =>
    have keeps := keeps_newest newest older fresh
    by_cases same : id = newest.identifier
    · obtain ⟨trees, inside⟩ := members_unfold ⟨older⟩ newest.cells fun entry member child named =>
        ih child (closed child ((Entries.mem_tables newest child).mpr ⟨entry, member, named⟩))
      exact ⟨_, .table id newest trees (by simp [lookup, lookupIn, same])
        (members_unfold_keeps _ _ keeps _ _ inside)⟩
    · obtain ⟨tree, unfolds⟩ := ih id (by simpa [lookupIn, same] using stored)
      exact ⟨tree, unfolds_keeps _ _ keeps _ _ unfolds⟩

theorem entries_unfold (store : Store) (grown : Grown store.contents) (entries : Entries)
    (holds : store.Holds entries.tables) : ∃ trees, MembersUnfold store entries.cells trees :=
  members_unfold store entries.cells fun entry member id named =>
    stored_unfolds store.contents grown id
      (holds id ((Entries.mem_tables entries id).mpr ⟨entry, member, named⟩))

def Agrees (left right : Store) : Prop :=
  ∀ id entries other, left.lookup id = some entries → right.lookup id = some other → entries = other

mutual
theorem unfolds_unique (left right : Store) (agrees : Agrees left right) (cell : Cell)
    (tree other : Tree) (here : Unfolds left cell tree) (there : Unfolds right cell other) :
    tree = other := by
  cases here with
  | atom atom => cases there; rfl
  | sequence items trees inside =>
    cases there with
    | sequence _ others otherInside =>
      rw [items_unfold_unique left right agrees items trees others inside otherInside]
  | table id entries trees read inside =>
    cases there with
    | table _ otherEntries others otherRead otherInside =>
      have same := agrees id entries otherEntries read otherRead
      subst same
      rw [members_unfold_unique left right agrees entries.cells trees others inside otherInside]
theorem items_unfold_unique (left right : Store) (agrees : Agrees left right) (items : List Cell)
    (trees others : List Tree) (here : ItemsUnfold left items trees)
    (there : ItemsUnfold right items others) : trees = others := by
  cases here with
  | nil => cases there; rfl
  | cons item tree tail trees first rest =>
    cases there with
    | cons _ other _ others otherFirst otherRest =>
      rw [unfolds_unique left right agrees item tree other first otherFirst,
        items_unfold_unique left right agrees tail trees others rest otherRest]
theorem members_unfold_unique (left right : Store) (agrees : Agrees left right)
    (cells : Keyed Cell) (trees others : List (Text × Tree)) (here : MembersUnfold left cells trees)
    (there : MembersUnfold right cells others) : trees = others := by
  cases here with
  | nil => cases there; rfl
  | cons key cell tree tail trees first rest =>
    cases there with
    | cons _ _ other _ others otherFirst otherRest =>
      rw [unfolds_unique left right agrees cell tree other first otherFirst,
        members_unfold_unique left right agrees tail trees others rest otherRest]
end

-- A store names what it holds after the content, so a tree determines the cell it came from.
mutual
theorem unfolds_injective (left right : Store) (grown : Grown left.contents)
    (otherGrown : Grown right.contents) (cell other : Cell) (tree : Tree)
    (here : Unfolds left cell tree) (there : Unfolds right other tree) : cell = other := by
  cases here with
  | atom atom => cases there; rfl
  | sequence items trees inside =>
    cases there with
    | sequence others _ otherInside =>
      rw [items_unfold_injective left right grown otherGrown items others trees inside otherInside]
  | table id entries trees read inside =>
    cases there with
    | table otherId otherEntries _ otherRead otherInside =>
      have cells := members_unfold_injective left right grown otherGrown entries.cells
        otherEntries.cells trees inside otherInside
      have same := Entries.eq_of_cells entries otherEntries cells
      rw [(grown_lookup _ grown id entries read).1,
        (grown_lookup _ otherGrown otherId otherEntries otherRead).1, same]
theorem items_unfold_injective (left right : Store) (grown : Grown left.contents)
    (otherGrown : Grown right.contents) (items others : List Cell) (trees : List Tree)
    (here : ItemsUnfold left items trees) (there : ItemsUnfold right others trees) :
    items = others := by
  cases here with
  | nil => cases there; rfl
  | cons item tree tail trees first rest =>
    cases there with
    | cons other _ otherTail _ otherFirst otherRest =>
      rw [unfolds_injective left right grown otherGrown item other tree first otherFirst,
        items_unfold_injective left right grown otherGrown tail otherTail trees rest otherRest]
theorem members_unfold_injective (left right : Store) (grown : Grown left.contents)
    (otherGrown : Grown right.contents) (cells others : Keyed Cell) (trees : List (Text × Tree))
    (here : MembersUnfold left cells trees) (there : MembersUnfold right others trees) :
    cells = others := by
  cases here with
  | nil => cases there; rfl
  | cons key cell tree tail trees first rest =>
    cases there with
    | cons _ other _ otherTail _ otherFirst otherRest =>
      rw [unfolds_injective left right grown otherGrown cell other tree first otherFirst,
        members_unfold_injective left right grown otherGrown tail otherTail trees rest otherRest]
end

end Store

namespace Session

def contents (session : Session) : List Entries :=
  session.sets.map (fun named => named.2.entries) ++
    session.depot.stores.flatMap fun store => store.contents.map Prod.snd

theorem set_content (session : Session) (name : Text) (set : ParameterSet)
    (found : session.sets.lookup name = some set) : set.entries ∈ session.contents := by
  refine List.mem_append_left _ (List.mem_map.mpr ⟨(name, set), ?_, rfl⟩)
  exact Keyed.lookup_mem name set session.sets found

theorem stored_content (session : Session) (sound : session.Sound) (number : Nat)
    (id : Identifier) (entries : Entries)
    (found : (session.depot.store number).lookup id = some entries) :
    entries ∈ session.contents := by
  have stored := (Store.grown_mem_iff _ (sound.depot number) id entries).mpr found
  refine List.mem_append_right _ (List.mem_flatMap.mpr ⟨session.depot.store number, ?_, ?_⟩)
  · by_cases inside : number < session.depot.stores.length
    · simp [Depot.store, List.getD_eq_getElem?_getD, inside]
    · simp [Depot.store, List.getD_eq_getElem?_getD, inside, Store.empty] at stored
  · exact List.mem_map.mpr ⟨(id, entries), stored, rfl⟩

def DigestsDiffer (contents : List Entries) : Prop :=
  ∀ entries ∈ contents, ∀ other ∈ contents,
    sha256 entries.stream = sha256 other.stream → entries.stream = other.stream

instance (contents : List Entries) : Decidable (DigestsDiffer contents) :=
  inferInstanceAs (Decidable (∀ entries ∈ contents, ∀ other ∈ contents, _ → _))

-- Texts, sequences and tables are counted in 64 bits, so none in memory is longer.
def CountsFit (contents : List Entries) : Prop := ∀ entries ∈ contents, entries.Fits

instance (contents : List Entries) : Decidable (CountsFit contents) :=
  inferInstanceAs (Decidable (∀ entries ∈ contents, _))

theorem same_content (contents : List Entries) (fits : CountsFit contents)
    (differ : DigestsDiffer contents) (entries other : Entries) (member : entries ∈ contents)
    (otherMember : other ∈ contents) (same : entries.identifier = other.identifier) :
    entries = other :=
  Entries.stream_injective entries other (fits entries member) (fits other otherMember)
    (differ entries member other otherMember same)

theorem stores_agree (session : Session) (sound : session.Sound) (fits : CountsFit session.contents)
    (differ : DigestsDiffer session.contents) (number other : Nat) :
    Store.Agrees (session.depot.store number) (session.depot.store other) := by
  intro id entries found here there
  refine same_content session.contents fits differ entries found
    (stored_content session sound number id entries here)
    (stored_content session sound other id found there) ?_
  rw [← (Store.grown_lookup _ (sound.depot number) id entries here).1,
    ← (Store.grown_lookup _ (sound.depot other) id found there).1]

theorem identifier_eq_iff (session : Session) (reachable : session.Reachable)
    (fits : CountsFit session.contents) (differ : DigestsDiffer session.contents)
    (name otherName : Text) (p q : ParameterSet) (found : session.sets.lookup name = some p)
    (otherFound : session.sets.lookup otherName = some q) :
    (p.id = q.id ↔ p.sameContent q = true) ∧
      ∃ tree other,
        (∀ trees, Store.MembersUnfold (session.homeOf p) p.entries.cells trees ↔ trees = tree) ∧
        (∀ trees, Store.MembersUnfold (session.homeOf q) q.entries.cells trees ↔ trees = other) ∧
        (p.id = q.id ↔ tree = other) := by
  have sound := reachable_sound session reachable
  have backs := sound.sets name p found
  have otherBacks := sound.sets otherName q otherFound
  have equal : p.id = q.id ↔ p.entries = q.entries := by
    rw [Depot.id_of_backs _ p backs, Depot.id_of_backs _ q otherBacks]
    refine ⟨fun same => ?_, fun same => congrArg Entries.identifier same⟩
    exact same_content session.contents fits differ p.entries q.entries
      (set_content session name p found) (set_content session otherName q otherFound) same
  obtain ⟨tree, unfolds⟩ := Store.entries_unfold (session.homeOf p) (sound.depot p.home) p.entries
    backs.tables
  obtain ⟨other, otherUnfolds⟩ := Store.entries_unfold (session.homeOf q) (sound.depot q.home)
    q.entries otherBacks.tables
  have agree := stores_agree session sound fits differ
  refine ⟨?_, tree, other, ?_, ?_, ?_⟩
  · rw [equal]
    simp [ParameterSet.sameContent]
  · intro trees
    refine ⟨fun here => ?_, fun same => same ▸ unfolds⟩
    exact Store.members_unfold_unique _ _ (agree p.home p.home) _ trees tree here unfolds
  · intro trees
    refine ⟨fun here => ?_, fun same => same ▸ otherUnfolds⟩
    exact Store.members_unfold_unique _ _ (agree q.home q.home) _ trees other here otherUnfolds
  · rw [equal]
    constructor
    · intro same
      rw [same] at unfolds
      exact Store.members_unfold_unique _ _ (agree p.home q.home) _ tree other unfolds otherUnfolds
    · intro same
      rw [← same] at otherUnfolds
      exact Entries.eq_of_cells _ _ (Store.members_unfold_injective _ _ (sound.depot p.home)
        (sound.depot q.home) _ _ tree unfolds otherUnfolds)

def twins : Session :=
  Session.empty.run [.openStore ['r'], .openStore ['s'], .create ['p'] ['r'],
    .put ['p'] ['a', '.', 'b'] .bool true, .create ['q'] ['s'],
    .put ['q'] ['c'] .nil (), .put ['q'] ['a', '.', 'b'] .bool true, .erase ['q'] ['c']]

theorem identifier_eq_iff_twins :
    twins.Reachable ∧ CountsFit twins.contents ∧ DigestsDiffer twins.contents ∧
      ∃ p q, twins.sets.lookup ['p'] = some p ∧ twins.sets.lookup ['q'] = some q ∧
        p.home ≠ q.home ∧ p.id = q.id ∧ p.sameContent q = true ∧
        ∃ tree, Store.MembersUnfold (twins.homeOf p) p.entries.cells tree ∧
          Store.MembersUnfold (twins.homeOf q) q.entries.cells tree := by
  have reachable : twins.Reachable :=
    leads_run .empty .empty .refl _ (permits_plain _ _ (by simp [Operation.sets, Ty.setsIn]))
  have fits : CountsFit twins.contents := by decide +kernel
  have differ : DigestsDiffer twins.contents := by decide +kernel
  have ids : (twins.sets.lookup ['p']).map (fun p => (p.home, p.id)) =
      ((twins.sets.lookup ['q']).map fun q => (q.home - 1, q.id)) := by decide +kernel
  have homes : (twins.sets.lookup ['q']).map ParameterSet.home = some 1 := by decide +kernel
  obtain ⟨q, otherFound, home⟩ := Option.map_eq_some_iff.mp homes
  rw [otherFound, Option.map_some, home] at ids
  obtain ⟨p, found, pair⟩ := Option.map_eq_some_iff.mp ids
  obtain ⟨otherHome, same⟩ := Prod.mk.inj pair
  obtain ⟨equal, tree, other, unfolds, otherUnfolds, trees⟩ :=
    identifier_eq_iff twins reachable fits differ ['p'] ['q'] p q found otherFound
  refine ⟨reachable, fits, differ, p, q, found, otherFound, by omega, same, equal.mp same, tree,
    (unfolds tree).mpr rfl, (otherUnfolds tree).mpr (trees.mp same)⟩

end Session
end ParamStore

import ParamStore.Proofs.ComposedSessions

set_option autoImplicit false

namespace ParamStore

-- What an atom becomes. Integers beyond 64 bits, infinite floats and complex numbers keep their texts.
inductive Atom.Shows : Atom → Json → Prop where
  | nil : Shows ⟨.nil, nilWord⟩ .null
  | bool (value : Bool) : Shows ⟨.bool, encodeBool value⟩ (.bool value)
  | number (n : Int) (fits : IntType.i64.Holds n ∨ IntType.u64.Holds n) :
      Shows ⟨.integer, encodeInt n⟩ (.integer n)
  | large (n : Int) (excess : ¬ (IntType.i64.Holds n ∨ IntType.u64.Holds n)) :
      Shows ⟨.integer, encodeInt n⟩ (.string (encodeInt n))
  | finite (x : Double) (text : Text) (written : encodeFloat x = .ok text)
      (read : decodeFloat text = .ok x) (finite : x.isFinite = true) : Shows ⟨.float, text⟩ (.float x)
  | infinite (sign : Char) (signed : sign = '+' ∨ sign = '-') :
      Shows ⟨.float, sign :: Text.infinity⟩ (.string (sign :: Text.infinity))
  | complex (text : Text) : Shows ⟨.complex, text⟩ (.string text)
  | string (content : Text) : Shows ⟨.string, content.canonical⟩ (.string content)

namespace Tree

mutual
def atoms : Tree → List Atom
  | .atom a => [a]
  | .sequence items => itemAtoms items
  | .table entries => memberAtoms entries
def itemAtoms : List Tree → List Atom
  | [] => []
  | item :: tail => atoms item ++ itemAtoms tail
def memberAtoms : List (Text × Tree) → List Atom
  | [] => []
  | (_, item) :: tail => atoms item ++ memberAtoms tail
end

mutual
inductive Shown : Tree → Json → Prop where
  | atom (atom : Atom) (json : Json) (shows : atom.Shows json) : Shown (.atom atom) json
  | sequence (trees : List Tree) (items : List Json) (inside : ItemsShown trees items) :
      Shown (.sequence trees) (.array items)
  | table (trees : List (Text × Tree)) (members : List (Text × Json))
      (inside : MembersShown trees members) : Shown (.table trees) (.object members)
inductive ItemsShown : List Tree → List Json → Prop where
  | nil : ItemsShown [] []
  | cons (tree : Tree) (json : Json) (trees : List Tree) (items : List Json)
      (first : Shown tree json) (rest : ItemsShown trees items) :
      ItemsShown (tree :: trees) (json :: items)
inductive MembersShown : List (Text × Tree) → List (Text × Json) → Prop where
  | nil : MembersShown [] []
  | cons (key : Text) (tree : Tree) (json : Json) (trees : List (Text × Tree))
      (members : List (Text × Json)) (first : Shown tree json) (rest : MembersShown trees members) :
      MembersShown ((key, tree) :: trees) ((key, json) :: members)
end

end Tree

def IntegersFit (atoms : List Atom) : Prop :=
  ∀ n, ⟨.integer, encodeInt n⟩ ∈ atoms → IntType.i128.Holds n

theorem integers_fit_append (first second : List Atom) :
    IntegersFit (first ++ second) ↔ IntegersFit first ∧ IntegersFit second := by
  simp only [IntegersFit, List.mem_append, or_imp, forall_and]

inductive Exported {α : Type} (atoms : List Atom) (shown : α → Prop) : Except Error α → Prop where
  | done (result : α) (fits : IntegersFit atoms) (shows : shown result) :
      Exported atoms shown (.ok result)
  | excess (n : Int) (member : ⟨.integer, encodeInt n⟩ ∈ atoms) (large : ¬ IntType.i128.Holds n) :
      Exported atoms shown (.error (.tooLarge (encodeInt n) .integer))

theorem exported_map {α β : Type} (atoms : List Atom) (shown : α → Prop) (other : β → Prop)
    (step : α → β) (each : ∀ result, shown result → other (step result)) (outcome : Except Error α)
    (exported : Exported atoms shown outcome) : Exported atoms other (outcome.map step) := by
  cases exported with
  | done result fits shows => exact .done (step result) fits (each result shows)
  | excess n member large => exact .excess n member large

theorem exported_both {α β γ : Type} (atoms others : List Atom) (shown : α → Prop)
    (otherShown : β → Prop) (together : γ → Prop) (join : α → β → γ)
    (each : ∀ first rest, shown first → otherShown rest → together (join first rest))
    (outcome : Except Error α) (otherOutcome : Except Error β) (exported : Exported atoms shown outcome)
    (otherExported : Exported others otherShown otherOutcome) :
    Exported (atoms ++ others) together
      (outcome.bind fun first => otherOutcome.bind fun rest => .ok (join first rest)) := by
  cases exported with
  | excess n member large => exact .excess n (List.mem_append_left _ member) large
  | done first fits shows =>
    cases otherExported with
    | excess n member large => exact .excess n (List.mem_append_right _ member) large
    | done rest otherFits otherShows =>
      exact .done _ ((integers_fit_append _ _).mpr ⟨fits, otherFits⟩)
        (each first rest shows otherShows)

theorem encode_infinite (x : Double) (text : Text) (written : encodeFloat x = .ok text)
    (infinite : x.isFinite = false) :
    text = (if x.negative then '-' else '+') :: Text.infinity := by
  have number : x.isNaN = false := by
    cases nan : x.isNaN with
    | false => rfl
    | true => simp [encodeFloat, nan] at written
  have size : x.isInfinite = true := by
    have large : Format.double.infinity ≤ x.magnitude := by simpa [Binary.isFinite] using infinite
    have most : x.magnitude ≤ Format.double.infinity := by simpa [Binary.isNaN] using number
    simpa [Binary.isInfinite] using Nat.le_antisymm most large
  rw [encodeFloat] at written
  rw [if_neg (by simp [number]), if_pos size] at written
  exact (Except.ok.inj written).symm

namespace Atom

theorem plain_exported (atom : Atom) (other : atom.kind ≠ .integer) (json : Json)
    (shows : atom.Shows json) : Exported [atom] atom.Shows (.ok json) := by
  refine .done json (fun n member => ?_) shows
  rw [← List.mem_singleton.mp member] at other
  exact absurd rfl other

theorem integer_exported (n : Int) :
    Exported [⟨.integer, encodeInt n⟩] (Shows ⟨.integer, encodeInt n⟩) (integerJson (encodeInt n)) := by
  rw [integerJson, decode_int_encode]
  by_cases fits : IntType.i128.Holds n
  · have alone : IntegersFit [⟨.integer, encodeInt n⟩] := by
      intro m member
      have same : encodeInt m = encodeInt n := by simpa using member
      -- The other integer has the same text, so it is read back as well.
      have read := decode_int_encode m
      rw [same, decode_int_encode, if_pos fits] at read
      by_contra large
      rw [if_neg large] at read
      cases read
    by_cases small : IntType.i64.Holds n ∨ IntType.u64.Holds n
    · simpa [fits, small, bind, Except.bind, pure, Except.pure] using
        Exported.done _ alone (.number n small)
    · simpa [fits, small, bind, Except.bind, pure, Except.pure] using
        Exported.done _ alone (.large n small)
  · simpa [fits, bind, Except.bind] using Exported.excess n (List.mem_singleton_self _) fits

theorem float_exported (x : Double) (text : Text) (written : encodeFloat x = .ok text) :
    Exported [⟨.float, text⟩] (Shows ⟨.float, text⟩) (floatJson text) := by
  obtain ⟨y, read, again, _⟩ := encode_float_stable x text written
  cases finite : y.isFinite with
  | true =>
    have json : floatJson text = .ok (.float y) := by
      simp [floatJson, read, finite, bind, Except.bind, pure, Except.pure]
    rw [json]
    exact plain_exported _ (by simp) _ (.finite y text again read finite)
  | false =>
    have json : floatJson text = .ok (.string text) := by
      simp [floatJson, read, finite, bind, Except.bind, pure, Except.pure]
    rw [json]
    refine plain_exported _ (by simp) _ ?_
    rw [encode_infinite y text again finite]
    exact .infinite _ (by cases y.negative <;> simp)

theorem exported (atom : Atom) (canonical : atom.Canonical) :
    Exported [atom] atom.Shows atom.json := by
  cases canonical with
  | nil => exact plain_exported _ (by simp) .null .nil
  | bool value =>
    cases value
    · exact plain_exported _ (by simp) (.bool false) (.bool false)
    · exact plain_exported _ (by simp) (.bool true) (.bool true)
  | integer n => exact integer_exported n
  | float x text written => exact float_exported x text written
  | complex x y re im => exact plain_exported _ (by simp) _ (.complex _)
  | string content =>
    have json : Atom.json ⟨.string, content.canonical⟩ = .ok (.string content) := by
      simp only [Atom.json, decode_canonical, Except.map]
    rw [json]
    exact plain_exported _ (by simp) _ (.string content)

end Atom

namespace Store

-- Along the unfolding of a cell each step exports what the tree has there.
mutual
theorem unfolds_exported (store : Store) (grown : Grown store.contents) (stored : store.Canonical)
    (cell : Cell) (canonical : cell.Canonical) (tree : Tree) (unfolds : Unfolds store cell tree) :
    Exported tree.atoms tree.Shown (cell.jsonWith (tableJson store.contents)) := by
  cases unfolds with
  | atom atom =>
    have exported := atom.exported (canonical atom (List.mem_singleton_self atom))
    rw [Cell.jsonWith, Tree.atoms]
    generalize atom.json = outcome at exported
    cases exported with
    | done json fits shows => exact .done json fits (.atom atom json shows)
    | excess n member large => exact .excess n member large
  | sequence items trees inside =>
    have each := (Cell.sequence_canonical items).mp canonical
    rw [Cell.jsonWith]
    exact exported_map _ _ _ Json.array (Tree.Shown.sequence trees) _
      (items_unfold_exported store grown stored items each trees inside)
  | table id entries trees read inside =>
    have shown := jsonView.table_stored store.contents grown id entries read
    simp only [jsonView] at shown
    rw [Cell.jsonWith, shown]
    exact exported_map _ _ _ Json.object (Tree.Shown.table trees) _
      (members_unfold_exported store grown stored entries.cells (stored id entries read) trees inside)
theorem items_unfold_exported (store : Store) (grown : Grown store.contents)
    (stored : store.Canonical) (items : List Cell) (canonical : ∀ item ∈ items, item.Canonical)
    (trees : List Tree) (unfold : ItemsUnfold store items trees) :
    Exported (Tree.itemAtoms trees) (Tree.ItemsShown trees)
      (Cell.itemJsons (tableJson store.contents) items) := by
  cases unfold with
  | nil => exact .done [] (by rintro _ ⟨⟩) .nil
  | cons item tree tail trees first rest =>
    rw [Cell.itemJsons, Tree.itemAtoms]
    exact exported_both _ _ _ _ _ List.cons
      (fun json found one others => .cons tree json trees found one others) _ _
      (unfolds_exported store grown stored item (canonical item (List.mem_cons_self ..)) tree first)
      (items_unfold_exported store grown stored tail
        (fun other member => canonical other (List.mem_cons_of_mem _ member)) trees rest)
theorem members_unfold_exported (store : Store) (grown : Grown store.contents)
    (stored : store.Canonical) (cells : Keyed Cell) (canonical : ∀ entry ∈ cells, entry.2.Canonical)
    (trees : List (Text × Tree)) (unfold : MembersUnfold store cells trees) :
    Exported (Tree.memberAtoms trees) (Tree.MembersShown trees)
      (memberJsons (tableJson store.contents) cells) := by
  cases unfold with
  | nil => exact .done [] (by rintro _ ⟨⟩) .nil
  | cons key cell tree tail trees first rest =>
    rw [memberJsons, Tree.memberAtoms]
    exact exported_both _ _ _ _ _ (fun json found => (key, json) :: found)
      (fun json found one others => .cons key tree json trees found one others) _ _
      (unfolds_exported store grown stored cell (canonical (key, cell) (List.mem_cons_self ..)) tree
        first)
      (members_unfold_exported store grown stored tail
        (fun other member => canonical other (List.mem_cons_of_mem _ member)) trees rest)
end

end Store

namespace Session

theorem composed_json (session : Session) (composed : session.Composed) (name : Text)
    (set : ParameterSet) (found : session.sets.lookup name = some set) :
    ∃ trees, Store.MembersUnfold (session.homeOf set) set.entries.cells trees ∧
      (IntegersFit (Tree.memberAtoms trees) → ∃ json, set.json (session.homeOf set) = .ok json ∧
        Tree.Shown (.table trees) json) ∧
      (¬ IntegersFit (Tree.memberAtoms trees) → ∃ n,
        ⟨.integer, encodeInt n⟩ ∈ Tree.memberAtoms trees ∧ ¬ IntType.i128.Holds n ∧
          set.json (session.homeOf set) = .error (.tooLarge (encodeInt n) .integer)) := by
  have sound := reachable_sound session (composed_reachable session composed)
  have canonical := composed_canonical session composed
  have grown := sound.depot set.home
  obtain ⟨trees, unfold⟩ := Store.entries_unfold (session.homeOf set) grown set.entries
    (sound.sets name set found).tables
  have exported := Store.members_unfold_exported (session.homeOf set) grown (canonical.depot set.home)
    set.entries.cells (canonical.sets name set found) trees unfold
  refine ⟨trees, unfold, ?_⟩
  rw [ParameterSet.json, Store.entriesJson]
  generalize memberJsons (Store.tableJson (session.homeOf set).contents) set.entries.cells = outcome
    at exported
  cases exported with
  | done members fits shows =>
    exact ⟨fun _ => ⟨_, rfl, .table trees members shows⟩, fun large => absurd fits large⟩
  | excess n member large =>
    exact ⟨fun fits => absurd (fits n member) large, fun _ => ⟨n, member, large, rfl⟩⟩

def exporting : Session :=
  Session.empty.run [.openStore ['r'], .create ['p'] ['r'],
    .put ['p'] ['a', '.', 'n'] (.list (.int .i128))
      [⟨-7, by decide +kernel⟩, ⟨18446744073709551616, by decide +kernel⟩],
    .put ['p'] ['a', '.', 'f'] (.option .double) (some (.infinity true)),
    .put ['p'] ['s'] .string ['x', ' ', 'y']]

def exportedText : Text :=
  "\x7b\n  \"a\": \x7b\n    \"f\": \"-infinity\",\n    \"n\": [\n      -7,\n".toList ++
    "      \"+1.8446744073709551616e+19\"\n    ]\n  \x7d,\n  \"s\": \"x y\"\n\x7d".toList

theorem composed_json_exporting :
    exporting.Composed ∧ ∃ set, exporting.sets.lookup ['p'] = some set ∧
      ∃ trees json, Store.MembersUnfold (exporting.homeOf set) set.entries.cells trees ∧
        set.json (exporting.homeOf set) = .ok json ∧ Tree.Shown (.table trees) json ∧
        json.pretty 0 = exportedText := by
  have composed : exporting.Composed := by
    refine composed_run .empty .empty _ (permits_plain _ _ ?_) ?_
    · simp [Operation.sets, Ty.setsIn]
    · simp [Operation.Clean, Ty.cellsIn]
  have checked : (exporting.sets.lookup ['p']).any (fun set =>
      decide ((set.json (exporting.homeOf set)).map (Json.pretty 0) = .ok exportedText)) = true := by
    decide +kernel
  obtain ⟨set, found, decided⟩ := (Option.any_eq_true _ _).mp checked
  obtain ⟨json, made, text⟩ := (Outcome.map_ok _ _ _).mp (of_decide_eq_true decided)
  obtain ⟨trees, unfold, fitting, large⟩ := composed_json exporting composed ['p'] set found
  refine ⟨composed, set, found, trees, json, unfold, made, ?_, text⟩
  by_cases fits : IntegersFit (Tree.memberAtoms trees)
  · obtain ⟨other, again, shown⟩ := fitting fits
    cases made.symm.trans again
    exact shown
  · obtain ⟨n, _, _, failed⟩ := large fits
    cases made.symm.trans failed

def oversized : Session :=
  Session.empty.run [.openStore ['r'], .create ['p'] ['r'],
    .put ['p'] ['a'] (.int .u128) ⟨_, IntType.u128.holds_greatest⟩]

theorem oversized_fails :
    oversized.Composed ∧ ∃ set, oversized.sets.lookup ['p'] = some set ∧
      set.json (oversized.homeOf set) =
        .error (.tooLarge (encodeInt IntType.u128.greatest) .integer) := by
  have composed : oversized.Composed := by
    refine composed_run .empty .empty _ (permits_plain _ _ ?_) ?_
    · simp [Operation.sets, Ty.setsIn]
    · simp [Operation.Clean, Ty.cellsIn]
  have checked : (oversized.sets.lookup ['p']).any (fun set =>
      decide ((set.json (oversized.homeOf set)).map (fun _ => ()) =
        .error (.tooLarge (encodeInt IntType.u128.greatest) .integer))) = true := by decide +kernel
  obtain ⟨set, found, decided⟩ := (Option.any_eq_true _ _).mp checked
  have failed := of_decide_eq_true decided
  refine ⟨composed, set, found, ?_⟩
  cases outcome : set.json (oversized.homeOf set) with
  | ok json => simp [outcome, Except.map] at failed
  | error error =>
    rw [outcome] at failed
    cases failed
    rfl

end Session
end ParamStore

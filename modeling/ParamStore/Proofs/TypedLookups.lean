import ParamStore.Proofs.MaterializeFind

set_option autoImplicit false

namespace ParamStore

theorem decode_sized_integral (type : IntType) (text : Text) (value : type.Number)
    (decoded : decodeSized type text = .ok value) : Ty.isIntegral text = true := by
  rw [decodeSized] at decoded
  by_cases widest : type = .u128
  · -- What only the widest type has room for is an excess for the others, and no mismatch.
    rw [if_pos widest] at decoded
    obtain ⟨wide, read, _⟩ := (Outcome.bind_ok _ _ _).mp decoded
    obtain ⟨size, unsigned, _⟩ := (Outcome.map_ok _ _ _).mp read
    obtain ⟨⟨negative, magnitude⟩, sized, _⟩ := (Outcome.bind_ok _ _ _).mp unsigned
    rw [Ty.isIntegral, decodeInt, sized]
    simp only [bind, Except.bind]
    by_cases holds : IntType.i128.Holds (if negative = true then -(magnitude : Int) else magnitude)
    · rw [if_pos holds]
    · rw [if_neg holds]
  · rw [if_neg widest] at decoded
    obtain ⟨wide, read, _⟩ := (Outcome.bind_ok _ _ _).mp decoded
    rw [Ty.isIntegral, read]

namespace Cell

theorem expect_atom_ok (kind : AtomKind) (cell : Cell) (text : Text) :
    cell.expectAtom kind = .ok text ↔ cell = .of kind text := by
  cases cell with
  | atom a =>
    obtain ⟨found, shown⟩ := a
    by_cases same : found = kind
    · simp [expectAtom, of, same]
    · simp [expectAtom, of, same]
  | sequence items => simp [expectAtom, of]
  | table id => simp [expectAtom, of]

end Cell

namespace Ty

theorem integral_text_ok (cell : Cell) (text : Text) (found : integralText cell = .ok text) :
    cell = .of .float text ∨ cell = .of .integer text := by
  unfold integralText at found
  split at found
  · cases found
    exact .inl rfl
  · exact .inr ((Cell.expect_atom_ok .integer _ text).mp found)

variable (depot : Depot) (home : Nat)

theorem items_accepted (inner : Ty)
    (each : ∀ cell value, inner.decode depot home cell = .ok value → inner.accepts cell = true)
    (items : List Cell) (values : List inner.Value)
    (decoded : items.mapM (inner.decode depot home) = .ok values) : items.all inner.accepts = true := by
  induction items generalizing values with
  | nil => rfl
  | cons item tail ih =>
    rw [List.mapM_cons] at decoded
    obtain ⟨first, read, others⟩ := (Outcome.bind_ok _ _ _).mp decoded
    obtain ⟨rest, readRest, _⟩ := (Outcome.bind_ok _ _ _).mp others
    rw [List.all_cons, each item first read, ih rest readRest]
    rfl

-- The induction is on the type; a list hands its item type on to its items.
theorem decode_accepted (ty : Ty) (cell : Cell) (value : ty.Value)
    (decoded : ty.decode depot home cell = .ok value) : ty.accepts cell = true := by
  induction ty generalizing cell with
  | nil =>
    obtain ⟨text, found, _⟩ := (Outcome.bind_ok _ _ _).mp decoded
    rw [(Cell.expect_atom_ok _ _ _).mp found]
    rfl
  | bool =>
    obtain ⟨text, found, _⟩ := (Outcome.bind_ok _ _ _).mp decoded
    rw [(Cell.expect_atom_ok _ _ _).mp found]
    rfl
  | int type =>
    obtain ⟨text, found, read⟩ := (Outcome.bind_ok _ _ _).mp decoded
    rcases integral_text_ok cell text found with float | integer
    · rw [float]
      exact decode_sized_integral type text value read
    · rw [integer]
      rfl
  | single =>
    obtain ⟨text, found, _⟩ := (Outcome.bind_ok _ _ _).mp decoded
    rw [(Cell.expect_atom_ok _ _ _).mp found]
    rfl
  | double =>
    obtain ⟨text, found, _⟩ := (Outcome.bind_ok _ _ _).mp decoded
    rw [(Cell.expect_atom_ok _ _ _).mp found]
    rfl
  | complex =>
    obtain ⟨text, found, _⟩ := (Outcome.bind_ok _ _ _).mp decoded
    rw [(Cell.expect_atom_ok _ _ _).mp found]
    rfl
  | string =>
    obtain ⟨text, found, _⟩ := (Outcome.bind_ok _ _ _).mp decoded
    rw [(Cell.expect_atom_ok _ _ _).mp found]
    rfl
  | set =>
    cases cell with
    | table id => rfl
    | _ => cases decoded
  | cell => rfl
  | option inner ih =>
    have either : (if cell.isNil then .ok none else (inner.decode depot home cell).map some :
        Except Error (Option inner.Value)) = .ok value := decoded
    rw [accepts]
    by_cases missing : cell.isNil = true
    · rw [missing, Bool.true_or]
    · rw [if_neg missing] at either
      obtain ⟨present, read, _⟩ := (Outcome.map_ok _ _ _).mp either
      rw [ih cell present read, Bool.or_true]
  | list inner ih =>
    cases cell with
    | sequence items => exact items_accepted depot home inner ih items value decoded
    | _ => cases decoded

end Ty

namespace Error

def Astray (error : Error) : Prop :=
  (∃ key, error = .cantFind key) ∨ ∃ cause, error = .typeMismatch cause

end Error

theorem Store.follow_astray (store : Store) (path : Text) (segments : List Segment) (cell : Cell)
    (error : Error) (failed : store.follow path segments cell = .error error) : error.Astray := by
  fun_induction store.follow path segments cell with
  | case1 => cases failed
  | case2 name rest id ih =>
    rw [Store.entries] at failed
    cases read : store.lookup id with
    | none =>
      simp only [read, bind, Except.bind, Except.error.injEq] at failed
      exact .inl ⟨id.hex, failed.symm⟩
    | some entries =>
      simp only [read, bind, Except.bind] at failed
      cases found : entries.lookup name with
      | none =>
        simp only [found, Except.error.injEq] at failed
        exact .inl ⟨path, failed.symm⟩
      | some inner =>
        simp only [found] at failed
        exact ih inner failed
  | case3 => cases failed; exact .inl ⟨path, rfl⟩
  | case4 place rest items inner found ih => exact ih failed
  | case5 => cases failed; exact .inr ⟨_, rfl⟩

namespace ParameterSet

theorem find_astray (store : Store) (set : ParameterSet) (path : Text) (error : Error)
    (failed : set.find store path = .error error) : error.Astray := by
  rw [find] at failed
  cases read : Path.read path with
  | error cause =>
    obtain ⟨fault, worded⟩ := Path.read_error path cause read
    rw [read] at failed
    cases failed
    exact .inr ⟨_, worded⟩
  | ok parsed =>
    simp only [read, bind, Except.bind] at failed
    cases found : set.entries.lookup parsed.root with
    | none =>
      simp only [found, Except.error.injEq] at failed
      exact .inl ⟨path, failed.symm⟩
    | some cell =>
      simp only [found] at failed
      exact Store.follow_astray store path parsed.rest cell error failed

variable (depot : Depot) (set : ParameterSet) (ty : Ty) (path : Text)

-- Reads into a variable: what it holds afterwards, and whether the path was there. Only a value that was read
-- is written.
def readInto (target : ty.Value) : ty.Value × Except Error Bool :=
  match set.find (depot.store set.home) path with
  | .error (.cantFind _) => (target, .ok false)
  | .error error => (target, .error error)
  | .ok cell =>
    match (ty.decode depot set.home cell).mapError (Error.within path) with
    | .error error => (target, .error error)
    | .ok value => (value, .ok true)

theorem read_into_present (target : ty.Value) :
    set.readInto depot ty path target =
      match set.getIfPresent depot ty path with
      | .error error => (target, .error error)
      | .ok none => (target, .ok false)
      | .ok (some value) => (value, .ok true) := by
  rw [readInto, getIfPresent]
  cases set.find (depot.store set.home) path with
  | error error => cases error <;> rfl
  | ok cell =>
    dsimp only
    cases (ty.decode depot set.home cell).mapError (Error.within path) <;> rfl

theorem lookups_found (fallback : ty.Value) (cell : Cell)
    (found : set.find (depot.store set.home) path = .ok cell) :
    set.getIfPresent depot ty path = (set.get depot ty path).map some ∧
      set.getOr depot ty path fallback =
        if ty.accepts cell = true then set.get depot ty path else .ok fallback := by
  rw [getIfPresent, getOr, get, found]
  exact ⟨rfl, rfl⟩

theorem lookups_absent (fallback : ty.Value) (key : Text)
    (absent : set.find (depot.store set.home) path = .error (.cantFind key)) :
    set.get depot ty path = .error (.cantFind key) ∧ set.getOr depot ty path fallback = .ok fallback ∧
      set.getIfPresent depot ty path = .ok none := by
  rw [getIfPresent, getOr, get, absent]
  exact ⟨rfl, rfl, rfl⟩

theorem lookups_astray (fallback : ty.Value) (cause : Mismatch)
    (astray : set.find (depot.store set.home) path = .error (.typeMismatch cause)) :
    set.get depot ty path = .error (.typeMismatch cause) ∧
      set.getOr depot ty path fallback = .ok fallback ∧
      set.getIfPresent depot ty path = .error (.typeMismatch cause) := by
  rw [getIfPresent, getOr, get, astray]
  exact ⟨rfl, rfl, rfl⟩

theorem get_accepted (cell : Cell) (found : set.find (depot.store set.home) path = .ok cell)
    (value : ty.Value) (read : set.get depot ty path = .ok value) : ty.accepts cell = true := by
  rw [get, found] at read
  exact Ty.decode_accepted depot set.home ty cell value ((Outcome.map_error_ok _ _ _).mp read)

theorem lookups_agree (fallback target : ty.Value) :
    (∀ value, set.get depot ty path = .ok value →
      set.getOr depot ty path fallback = .ok value ∧
        set.getIfPresent depot ty path = .ok (some value) ∧
        set.readInto depot ty path target = (value, .ok true)) ∧
    (∀ key, set.find (depot.store set.home) path = .error (.cantFind key) →
      set.get depot ty path = .error (.cantFind key) ∧
        set.getOr depot ty path fallback = .ok fallback ∧
        set.getIfPresent depot ty path = .ok none ∧
        set.readInto depot ty path target = (target, .ok false)) ∧
    (∀ error, set.get depot ty path = .error error →
      (∀ key, set.find (depot.store set.home) path ≠ .error (.cantFind key)) →
      set.getIfPresent depot ty path = .error error ∧
        set.readInto depot ty path target = (target, .error error) ∧
        set.getOr depot ty path fallback =
          match set.find (depot.store set.home) path with
          | .error _ => .ok fallback
          | .ok cell => if ty.accepts cell = true then .error error else .ok fallback) ∧
    ∀ cell, ty.accepts cell = false → ∃ error, ty.decode depot set.home cell = .error error := by
  simp only [set.read_into_present depot ty path target]
  refine ⟨fun value read => ?_, fun key absent => ?_, fun error failed present => ?_, fun cell other => ?_⟩
  · cases found : set.find (depot.store set.home) path with
    | error cause =>
      rw [get, found] at read
      cases read
    | ok cell =>
      obtain ⟨whole, either⟩ := set.lookups_found depot ty path fallback cell found
      rw [if_pos (set.get_accepted depot ty path cell found value read)] at either
      rw [whole, either, read]
      exact ⟨rfl, rfl, rfl⟩
  · obtain ⟨fails, stands, nothing⟩ := set.lookups_absent depot ty path fallback key absent
    rw [nothing]
    exact ⟨fails, stands, rfl, rfl⟩
  · cases found : set.find (depot.store set.home) path with
    | error cause =>
      rcases set.find_astray (depot.store set.home) path cause found with ⟨key, same⟩ | ⟨mismatch, same⟩
      · rw [same] at found
        exact absurd found (present key)
      · rw [same] at found
        obtain ⟨fails, stands, also⟩ := set.lookups_astray depot ty path fallback mismatch found
        cases failed.symm.trans fails
        rw [also]
        exact ⟨rfl, rfl, stands⟩
    | ok cell =>
      obtain ⟨whole, either⟩ := set.lookups_found depot ty path fallback cell found
      rw [whole, either, failed]
      exact ⟨rfl, rfl, rfl⟩
  · cases decoded : ty.decode depot set.home cell with
    | error error => exact ⟨error, rfl⟩
    | ok value =>
      rw [Ty.decode_accepted depot set.home ty cell value decoded] at other
      cases other

def measured : ParameterSet :=
  (ParameterSet.empty 0).withEntries (((Entries.empty.put ['w']
    (.sequence [.of .float ['2', '.', '0'], Cell.nil])).put ['v'] (.of .float ['2', '.', '5'])).put ['x']
      (.of .integer ['3', '0', '0']))

def byte : IntType := ⟨false, .w8⟩

theorem lookups_agree_measured :
    (measured.getOr ⟨[]⟩ (.list (.option (.int byte))) ['w'] [] = .ok [some ⟨2, by decide⟩, none] ∧
      measured.readInto ⟨[]⟩ (.list (.option (.int byte))) ['w'] [] =
        ([some ⟨2, by decide⟩, none], .ok true)) ∧
    (measured.getOr ⟨[]⟩ (.int byte) ['w', '[', '2', ']'] ⟨9, by decide⟩ = .ok ⟨9, by decide⟩ ∧
      measured.readInto ⟨[]⟩ (.int byte) ['w', '[', '2', ']'] ⟨9, by decide⟩ =
        (⟨9, by decide⟩, .ok false)) ∧
    (measured.getOr ⟨[]⟩ (.int byte) ['v'] ⟨9, by decide⟩ = .ok ⟨9, by decide⟩ ∧
      measured.getOr ⟨[]⟩ (.int byte) ['x'] ⟨9, by decide⟩ =
        .error (.tooLarge ['3', '0', '0'] (.sized byte))) ∧
    ∃ error, (Ty.int byte).decode ⟨[]⟩ 0 (.of .float ['2', '.', '5']) = .error error := by
  have list : measured.get ⟨[]⟩ (.list (.option (.int byte))) ['w'] = .ok [some ⟨2, by decide⟩, none] := by
    with_unfolding_all rfl
  have absent : measured.find (Depot.store ⟨[]⟩ measured.home) ['w', '[', '2', ']'] =
      .error (.cantFind ['w', '[', '2', ']']) := by with_unfolding_all rfl
  have fraction : measured.find (Depot.store ⟨[]⟩ measured.home) ['v'] = .ok (.of .float ['2', '.', '5']) := by
    with_unfolding_all rfl
  have wide : measured.find (Depot.store ⟨[]⟩ measured.home) ['x'] = .ok (.of .integer ['3', '0', '0']) := by
    with_unfolding_all rfl
  obtain ⟨reads, _⟩ := measured.lookups_agree ⟨[]⟩ (.list (.option (.int byte))) ['w'] [] []
  obtain ⟨_, missing, _⟩ := measured.lookups_agree ⟨[]⟩ (.int byte) ['w', '[', '2', ']'] ⟨9, by decide⟩
    ⟨9, by decide⟩
  obtain ⟨_, _, hidden, shapes⟩ := measured.lookups_agree ⟨[]⟩ (.int byte) ['v'] ⟨9, by decide⟩
    ⟨9, by decide⟩
  obtain ⟨_, _, shown, _⟩ := measured.lookups_agree ⟨[]⟩ (.int byte) ['x'] ⟨9, by decide⟩ ⟨9, by decide⟩
  obtain ⟨whole, _, written⟩ := reads _ list
  obtain ⟨_, stands, _, stays⟩ := missing _ absent
  obtain ⟨_, _, instead⟩ := hidden _ (by with_unfolding_all rfl) (by simp [fraction])
  obtain ⟨_, _, excess⟩ := shown _ (by with_unfolding_all rfl) (by simp [wide])
  rw [fraction] at instead
  rw [wide] at excess
  exact ⟨⟨whole, written⟩, ⟨stands, stays⟩, ⟨instead, excess⟩, shapes _ (by decide)⟩

end ParameterSet
end ParamStore

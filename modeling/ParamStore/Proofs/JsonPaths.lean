import ParamStore.Proofs.StoreWalks

set_option autoImplicit false

namespace ParamStore

def Json.follow? : List Segment → Json → Option Json
  | [], json => some json
  | .key name :: rest, json => (json.member? name).bind (follow? rest)
  | .index place :: rest, json => (json.element? place).bind (follow? rest)

theorem Atom.json_flat (atom : Atom) (json : Json) (shown : atom.json = .ok json) :
    (∀ name, json.member? name = none) ∧ ∀ place, json.element? place = none := by
  obtain ⟨kind, text⟩ := atom
  cases kind with
  | nil | complex =>
    cases shown
    exact ⟨fun _ => rfl, fun _ => rfl⟩
  | bool | string =>
    obtain ⟨_, _, rfl⟩ := (Outcome.map_ok _ _ _).mp shown
    exact ⟨fun _ => rfl, fun _ => rfl⟩
  | integer | float =>
    obtain ⟨_, _, made⟩ := (Outcome.bind_ok _ _ _).mp shown
    split at made <;> cases made <;> exact ⟨fun _ => rfl, fun _ => rfl⟩

namespace Cell

theorem item_jsons_get (table : Identifier → Except Error Json) (items : List Cell) (jsons : List Json)
    (made : itemJsons table items = .ok jsons) (place : Nat) :
    (items[place]? = none ∧ jsons[place]? = none) ∨ ∃ item json, items[place]? = some item ∧
      jsons[place]? = some json ∧ item.jsonWith table = .ok json := by
  induction items generalizing jsons place with
  | nil =>
    cases made
    exact .inl ⟨rfl, rfl⟩
  | cons item tail ih =>
    rw [itemJsons] at made
    obtain ⟨first, shown, others⟩ := (Outcome.bind_ok _ _ _).mp made
    obtain ⟨rest, later, same⟩ := (Outcome.bind_ok _ _ _).mp others
    cases same
    cases place with
    | zero => exact .inr ⟨item, first, rfl, rfl, shown⟩
    | succ place => exact ih rest later place

end Cell

theorem member_jsons_lookup (table : Identifier → Except Error Json) (cells : Keyed Cell)
    (members : List (Text × Json)) (made : memberJsons table cells = .ok members) (key : Text) :
    (cells.lookup key = none ∧ Keyed.lookup key members = none) ∨ ∃ cell json,
      cells.lookup key = some cell ∧ Keyed.lookup key members = some json ∧
        cell.jsonWith table = .ok json := by
  induction cells generalizing members with
  | nil =>
    cases made
    exact .inl ⟨rfl, rfl⟩
  | cons entry tail ih =>
    obtain ⟨first, cell⟩ := entry
    rw [memberJsons] at made
    obtain ⟨json, shown, others⟩ := (Outcome.bind_ok _ _ _).mp made
    obtain ⟨rest, later, same⟩ := (Outcome.bind_ok _ _ _).mp others
    cases same
    by_cases here : key = first
    · exact .inr ⟨cell, json, if_pos here, if_pos here, shown⟩
    · rw [Keyed.lookup, Keyed.lookup, if_neg here, if_neg here]
      exact ih rest later

namespace Store

-- What a path leads to in a store, and what it leads to in the JSON: a cell and its own JSON, or nothing.
inductive Exports (store : Store) (path : Text) : Except Error Cell → Option Json → Prop where
  | found (cell : Cell) (json : Json) (shown : store.cellJson cell = .ok json) :
      Exports store path (.ok cell) (some json)
  | missing : Exports store path (.error (.cantFind path)) none
  | mismatch (step : Segment) (shape : Shape) :
      Exports store path (.error (.typeMismatch (.noStep step path shape))) none

theorem table_json (store : Store) (grown : Grown store.contents) (id : Identifier) (json : Json)
    (shown : store.cellJson (.table id) = .ok json) :
    ∃ entries members, store.lookup id = some entries ∧ json = .object members ∧
      memberJsons (tableJson store.contents) entries.cells = .ok members := by
  have made : jsonView.table store.contents id = .ok json := shown
  cases found : store.lookup id with
  | none =>
    rw [jsonView.table_missing store.contents id found] at made
    cases made
  | some entries =>
    rw [jsonView.table_stored store.contents grown id entries found] at made
    obtain ⟨members, inside, rfl⟩ := (Outcome.map_ok _ _ _).mp made
    exact ⟨entries, members, rfl, rfl, inside⟩

-- The induction is on the segments: each of them goes into one table or sequence, and into its JSON.
theorem follow_exports (store : Store) (grown : Grown store.contents) (path : Text)
    (segments : List Segment) (cell : Cell) (json : Json) (shown : store.cellJson cell = .ok json) :
    Exports store path (store.follow path segments cell) (json.follow? segments) := by
  induction segments generalizing cell json with
  | nil => exact .found cell json shown
  | cons segment rest ih =>
    cases cell with
    | atom atom =>
      obtain ⟨noMember, noElement⟩ := atom.json_flat json shown
      cases segment with
      | key name =>
        rw [Json.follow?, noMember name]
        exact .mismatch _ _
      | index place =>
        rw [Json.follow?, noElement place]
        exact .mismatch _ _
    | sequence items =>
      obtain ⟨jsons, made, rfl⟩ := (Outcome.map_ok _ _ _).mp shown
      cases segment with
      | key name => exact .mismatch _ _
      | index place =>
        rw [follow, Json.follow?, Json.element?]
        rcases Cell.item_jsons_get _ items jsons made place with
          ⟨here, there⟩ | ⟨item, inner, here, there, inside⟩
        · rw [here, there]
          exact .missing
        · rw [here, there]
          exact ih item inner inside
    | table id =>
      obtain ⟨entries, members, stored, rfl, made⟩ := table_json store grown id json shown
      cases segment with
      | index place => exact .mismatch _ _
      | key name =>
        rw [follow, (entries_ok store id entries).mpr stored, Json.follow?, Json.member?]
        simp only [bind, Except.bind, Entries.lookup]
        rcases member_jsons_lookup _ entries.cells members made name with
          ⟨here, there⟩ | ⟨cell, inner, here, there, inside⟩
        · rw [here, there]
          exact .missing
        · rw [here, there]
          exact ih cell inner inside

end Store

theorem ParameterSet.find_exports (store : Store) (grown : Store.Grown store.contents) (set : ParameterSet)
    (json : Json) (shown : set.json store = .ok json) (path : Text) (parsed : Path)
    (read : Path.read path = .ok parsed) :
    store.Exports path (set.find store path) (json.follow? parsed.segments) := by
  obtain ⟨members, made, rfl⟩ := (Outcome.map_ok _ _ _).mp shown
  rw [find, read, Path.segments, Json.follow?, Json.member?]
  simp only [bind, Except.bind, Entries.lookup]
  rcases member_jsons_lookup _ set.entries.cells members made parsed.root with
    ⟨here, there⟩ | ⟨cell, inner, here, there, inside⟩
  · rw [here, there]
    exact .missing
  · rw [here, there]
    exact store.follow_exports grown path parsed.rest cell inner inside

namespace Session

theorem find_exported (session : Session) (reachable : session.Reachable) (set : ParameterSet)
    (json : Json) (shown : set.json (session.homeOf set) = .ok json) (path : Text) (parsed : Path)
    (read : Path.read path = .ok parsed) :
    (∀ cell, set.find (session.homeOf set) path = .ok cell →
      ∃ value, json.follow? parsed.segments = some value ∧
        (session.homeOf set).cellJson cell = .ok value) ∧
    (∀ value, json.follow? parsed.segments = some value →
      ∃ cell, set.find (session.homeOf set) path = .ok cell ∧
        (session.homeOf set).cellJson cell = .ok value) ∧
    (json.follow? parsed.segments = none →
      ∃ error, set.find (session.homeOf set) path = .error error ∧
        (error = .cantFind path ∨ ∃ step shape, error = .typeMismatch (.noStep step path shape))) := by
  have sound := reachable_sound session reachable
  have exports := set.find_exports _ (sound.depot set.home) json shown path parsed read
  rw [← homeOf] at exports
  generalize set.find (session.homeOf set) path = answer at exports
  generalize json.follow? parsed.segments = reached at exports
  cases exports with
  | found cell value inside =>
    refine ⟨fun other same => ?_, fun other same => ?_, by rintro ⟨⟩⟩
    · cases same
      exact ⟨value, rfl, inside⟩
    · cases same
      exact ⟨cell, rfl, inside⟩
  | missing => exact ⟨by rintro _ ⟨⟩, by rintro _ ⟨⟩, fun _ => ⟨_, rfl, .inl rfl⟩⟩
  | mismatch step shape =>
    exact ⟨by rintro _ ⟨⟩, by rintro _ ⟨⟩, fun _ => ⟨_, rfl, .inr ⟨step, shape, rfl⟩⟩⟩

def mixedSet : Session :=
  Session.empty.run [.openStore ['r'], .create ['p'] ['r'],
    .put ['p'] "s[0].x".toList (.list .bool) [true, false], .put ['p'] "s[1]".toList .nil ()]

theorem find_exported_mixed :
    mixedSet.Reachable ∧ ∃ set, mixedSet.sets.lookup ['p'] = some set ∧
      ∃ json, set.json (mixedSet.homeOf set) = .ok json ∧
        json.follow? [.key ['s'], .index 0, .key ['x'], .index 1] = some (.bool false) ∧
        json.follow? [.key ['s'], .index 0, .index 1] = none := by
  have reachable : mixedSet.Reachable :=
    leads_run .empty .empty .refl _ (permits_plain _ _ (by simp [Operation.sets, Ty.setsIn]))
  have checked : (mixedSet.sets.lookup ['p']).any (fun set =>
      (set.json (mixedSet.homeOf set)).isOk &&
        decide (set.find (mixedSet.homeOf set) "s[0].x[1]".toList =
          .ok (.of .bool (encodeBool false))) &&
        !(set.find (mixedSet.homeOf set) "s[0][1]".toList).isOk) = true := by decide +kernel
  obtain ⟨set, found, decided⟩ := (Option.any_eq_true _ _).mp checked
  simp only [Bool.and_eq_true, decide_eq_true_eq] at decided
  obtain ⟨⟨exported, reached⟩, astray⟩ := decided
  cases shown : set.json (mixedSet.homeOf set) with
  | error error => simp [shown, Except.isOk, Except.toBool] at exported
  | ok json =>
    refine ⟨reachable, set, found, json, shown, ?_, ?_⟩
    · obtain ⟨forward, _, _⟩ := find_exported mixedSet reachable set json shown "s[0].x[1]".toList
        ⟨['s'], [.index 0, .key ['x'], .index 1]⟩ (by decide +kernel)
      obtain ⟨value, there, inside⟩ := forward _ reached
      cases inside
      exact there
    · obtain ⟨_, back, _⟩ := find_exported mixedSet reachable set json shown "s[0][1]".toList
        ⟨['s'], [.index 0, .index 1]⟩ (by decide +kernel)
      refine Option.eq_none_iff_forall_ne_some.mpr fun value there => ?_
      obtain ⟨cell, here, _⟩ := back value there
      rw [here] at astray
      cases astray

end Session
end ParamStore

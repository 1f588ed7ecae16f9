import ParamStore.Proofs.ContentAddress

set_option autoImplicit false

namespace ParamStore
namespace Cell

mutual
theorem text_with_congr (table other : Identifier → Text) (cell : Cell)
    (same : ∀ id ∈ cell.tables, table id = other id) : cell.textWith table = cell.textWith other := by
  cases cell with
  | atom atom => rfl
  | sequence items => rw [textWith, textWith, item_texts_congr table other items same]
  | table id => exact same id (List.mem_singleton_self id)
theorem item_texts_congr (table other : Identifier → Text) (items : List Cell)
    (same : ∀ id ∈ itemTables items, table id = other id) :
    itemTexts table items = itemTexts other items := by
  match items with
  | [] => rfl
  | item :: tail =>
    rw [itemTexts, itemTexts,
      text_with_congr table other item fun id named => same id (List.mem_append_left _ named),
      item_texts_congr table other tail fun id named => same id (List.mem_append_right _ named)]
end

mutual
theorem json_with_congr (table other : Identifier → Except Error Json) (cell : Cell)
    (same : ∀ id ∈ cell.tables, table id = other id) : cell.jsonWith table = cell.jsonWith other := by
  cases cell with
  | atom atom => rfl
  | sequence items => rw [jsonWith, jsonWith, item_jsons_congr table other items same]
  | table id => exact same id (List.mem_singleton_self id)
theorem item_jsons_congr (table other : Identifier → Except Error Json) (items : List Cell)
    (same : ∀ id ∈ itemTables items, table id = other id) :
    itemJsons table items = itemJsons other items := by
  match items with
  | [] => rfl
  | item :: tail =>
    rw [itemJsons, itemJsons,
      json_with_congr table other item fun id named => same id (List.mem_append_left _ named),
      item_jsons_congr table other tail fun id named => same id (List.mem_append_right _ named)]
end

end Cell

namespace Entries

theorem text_with_congr (table other : Identifier → Text) (entries : Entries)
    (same : ∀ id ∈ entries.tables, table id = other id) :
    entries.textWith table = entries.textWith other := by
  rw [textWith, textWith]
  congr 1
  refine List.map_congr_left fun entry member => ?_
  rw [Cell.text_with_congr table other entry.2 fun id named =>
    same id ((mem_tables entries id).mpr ⟨entry, member, named⟩)]

theorem member_jsons_congr (table other : Identifier → Except Error Json) (cells : Keyed Cell)
    (same : ∀ entry ∈ cells, ∀ id ∈ entry.2.tables, table id = other id) :
    memberJsons table cells = memberJsons other cells := by
  induction cells with
  | nil => rfl
  | cons entry tail ih =>
    rw [memberJsons, memberJsons,
      Cell.json_with_congr table other entry.2 (same entry (List.mem_cons_self ..)),
      ih fun later member => same later (List.mem_cons_of_mem _ member)]

end Entries

namespace Store

-- A way to show tables: an older content never shows a newer one, and of the tables that a content
-- names only what they show matters.
structure View (α : Type) where
  table : List (Identifier × Entries) → Identifier → α
  content : (Identifier → α) → Entries → α
  newest : ∀ stored entries older id, table ((stored, entries) :: older) id =
    if id = stored then content (table older) entries else table older id
  congr : ∀ first second entries, (∀ id ∈ entries.tables, first id = second id) →
    content first entries = content second entries

def textView : View Text where
  table := tableText
  content table entries := '{' :: entries.textWith table ++ ['}']
  newest _ _ _ _ := rfl
  congr first second entries same := by
    rw [Entries.text_with_congr first second entries same]

def jsonView : View (Except Error Json) where
  table := tableJson
  content table entries := (memberJsons table entries.cells).map .object
  newest _ _ _ _ := rfl
  congr first second entries same := by
    rw [Entries.member_jsons_congr first second entries.cells fun entry member id named =>
      same id ((Entries.mem_tables entries id).mpr ⟨entry, member, named⟩)]

theorem agrees_keeps (before after other : Store) (keeps : Keeps before after)
    (agrees : Agrees after other) : Agrees before other :=
  fun id entries found here there => agrees id entries found (keeps id entries here) there

namespace View

variable {α : Type} (view : View α)

theorem table_older (newest : Entries) (older : List (Identifier × Entries)) (id : Identifier)
    (fresh : lookupIn newest.identifier older = none) (stored : (lookupIn id older).isSome) :
    view.table ((newest.identifier, newest) :: older) id = view.table older id := by
  rw [view.newest, if_neg]
  rintro rfl
  rw [fresh] at stored
  cases stored

theorem table_stored (contents : List (Identifier × Entries)) (grown : Grown contents)
    (id : Identifier) (entries : Entries) (found : lookupIn id contents = some entries) :
    view.table contents id = view.content (view.table contents) entries := by
  induction grown with
  | nil => cases found
  | cons newest older below fresh closed ih =>
    have keeps : ∀ inner : Entries, (∀ child ∈ inner.tables, (lookupIn child older).isSome) →
        view.content (view.table older) inner =
          view.content (view.table ((newest.identifier, newest) :: older)) inner :=
      fun inner inside => view.congr _ _ inner fun child named =>
        (view.table_older newest older child fresh (inside child named)).symm
    by_cases same : id = newest.identifier
    · have exact : newest = entries := by simpa [lookupIn, same] using found
      subst exact
      rw [view.newest, if_pos same]
      exact keeps newest closed
    · have before : lookupIn id older = some entries := by simpa [lookupIn, same] using found
      rw [view.newest, if_neg same, ih before]
      exact keeps entries (grown_lookup older below id entries before).2

-- The induction is on the age of the content in the first store; in the second one its tables may have
-- any age.
theorem table_agrees (contents : List (Identifier × Entries)) (grown : Grown contents) (other : Store)
    (otherGrown : Grown other.contents) (agrees : Agrees ⟨contents⟩ other) (id : Identifier)
    (here : (lookupIn id contents).isSome) (there : other.contains id = true) :
    view.table contents id = view.table other.contents id := by
  induction grown generalizing id with
  | nil => cases here
  | cons newest older below fresh closed ih =>
    have agreesBefore := agrees_keeps _ _ other (keeps_newest newest older fresh) agrees
    obtain ⟨entries, found⟩ := (contains_iff other id).mp there
    by_cases same : id = newest.identifier
    · have exact : newest = entries :=
        agrees id newest entries (by simp [lookup, lookupIn, same]) found
      subst exact
      rw [view.newest, if_pos same, view.table_stored other.contents otherGrown id newest found]
      refine view.congr _ _ newest fun child named => ?_
      exact ih agreesBefore child (closed child named)
        (grown_holds other otherGrown id newest found child named)
    · have before : (lookupIn id older).isSome := by simpa [lookupIn, same] using here
      rw [view.newest, if_neg same]
      exact ih agreesBefore id before there

end View

theorem follow_agrees (left right : Store) (grown : Grown left.contents)
    (otherGrown : Grown right.contents) (agrees : Agrees left right) (path : Text)
    (segments : List Segment) (cell : Cell) (here : left.Holds cell.tables)
    (there : right.Holds cell.tables) :
    left.follow path segments cell = right.follow path segments cell := by
  induction segments generalizing cell with
  | nil => rfl
  | cons segment rest ih =>
    cases segment with
    | key name =>
      cases cell with
      | atom atom => rfl
      | sequence items => rfl
      | table id =>
        obtain ⟨entries, found⟩ := (contains_iff left id).mp (here id (List.mem_singleton_self id))
        obtain ⟨other, read⟩ := (contains_iff right id).mp (there id (List.mem_singleton_self id))
        have same := agrees id entries other found read
        subst same
        simp only [follow, Store.entries, found, read, bind, Except.bind]
        cases inside : entries.lookup name with
        | none => rfl
        | some inner =>
          have below := Entries.lookup_tables entries name inner inside
          exact ih inner
            (fun child named => grown_holds left grown id entries found child (below child named))
            (fun child named => grown_holds right otherGrown id entries read child (below child named))
    | index place =>
      cases cell with
      | atom atom => rfl
      | table id => rfl
      | sequence items =>
        simp only [follow]
        cases inside : items[place]? with
        | none => rfl
        | some inner =>
          have below : ∀ child ∈ inner.tables, child ∈ (Cell.sequence items).tables := fun child named =>
            (Cell.mem_item_tables items child).mpr ⟨inner, List.mem_of_getElem? inside, named⟩
          exact ih inner (fun child named => here child (below child named))
            (fun child named => there child (below child named))

end Store

namespace ParameterSet

structure Alike (store : Store) (set : ParameterSet) (other : Store) (copy : ParameterSet) : Prop where
  text : copy.text other = set.text store
  json : copy.json other = set.json store
  find : ∀ path, copy.find other path = set.find store path

theorem alike_of_agrees (store other : Store) (grown : Store.Grown store.contents)
    (otherGrown : Store.Grown other.contents) (agrees : Store.Agrees store other)
    (set copy : ParameterSet) (same : copy.entries = set.entries)
    (here : store.Holds set.entries.tables) (there : other.Holds set.entries.tables) :
    Alike store set other copy := by
  have shown : ∀ {α : Type} (view : Store.View α), ∀ id ∈ set.entries.tables,
      view.table other.contents id = view.table store.contents id := fun view id named =>
    (view.table_agrees store.contents grown other otherGrown agrees id (here id named)
      (there id named)).symm
  refine ⟨?_, ?_, fun path => ?_⟩
  · rw [text, text, Store.entriesText, Store.entriesText, same]
    exact Entries.text_with_congr _ _ set.entries (shown Store.textView)
  · rw [json, json, Store.entriesJson, Store.entriesJson, same]
    exact Store.jsonView.congr _ _ set.entries (shown Store.jsonView)
  · rw [find, find, same]
    cases read : Path.read path with
    | error error => rfl
    | ok parsed =>
      simp only [bind, Except.bind]
      cases found : set.entries.lookup parsed.root with
      | none => rfl
      | some cell =>
        have below := Entries.lookup_tables set.entries parsed.root cell found
        exact (Store.follow_agrees store other grown otherGrown agrees path parsed.rest cell
          (fun id named => here id (below id named)) fun id named => there id (below id named)).symm

end ParameterSet
end ParamStore

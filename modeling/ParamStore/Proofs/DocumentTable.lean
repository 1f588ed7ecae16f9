import ParamStore.Proofs.MaterializeDocument
import ParamStore.Proofs.ReferenceLookup

set_option autoImplicit false

namespace ParamStore
namespace Document

theorem lookup_bound (document : Document) (name : Text) (item : Flagged Value)
    (found : document.lookup name = some item) :
    ∃ binding ∈ document.bindings, binding.name = some name ∧ binding.item = item := by
  obtain ⟨binding, member, rfl⟩ := List.mem_map.mp (List.mem_of_getLast? found)
  obtain ⟨bound, named⟩ := List.mem_filter.mp member
  exact ⟨binding, bound, eq_of_beq named, rfl⟩

theorem lookup_last_kept (document : Document) (name : Text) (item : Flagged Value)
    (found : document.lookup name = some item) (unflagged : item.inProlog = false) :
    (document.lastKept name).map Binding.item = some item := by
  rw [lookup, versions, List.getLast?_map] at found
  obtain ⟨binding, last, rfl⟩ := Option.map_eq_some_iff.mp found
  obtain ⟨before, split⟩ := List.getLast?_eq_some_iff.mp last
  have filtered : (document.bindings.filter fun binding =>
      binding.name == some name && !binding.item.inProlog) =
      (before ++ [binding]).filter fun binding => !binding.item.inProlog := by
    rw [← split, List.filter_filter]
    simp only [Bool.and_comm]
  rw [lastKept, filtered, List.filter_append, List.filter_cons_of_pos (by simp [unflagged])]
  simp

theorem to_table_ordered (document : Document) : Keyed.Ordered document.toTable.entries := by
  obtain ⟨bindings, diagnostics, deferred⟩ := document
  unfold toTable
  induction bindings using List.reverseRecOn with
  | nil => exact List.Pairwise.nil
  | append_singleton before last ih =>
    simp only at ih ⊢
    rw [List.foldl_append, List.foldl_cons, List.foldl_nil]
    cases last.name with
    | none => exact ih
    | some name => exact Keyed.ordered_put name last.item _ ih

theorem to_table_sound (document : Document) (sound : document.Sound)
    (entry : Text × Flagged Value) (member : entry ∈ document.toTable.entries) :
    entry.1.isKey = true ∧ entry.2.value.Plain := by
  have found := Keyed.ordered_lookup _ (to_table_ordered document) entry.1 entry.2 member
  obtain ⟨binding, bound, named, same⟩ :=
    lookup_bound document entry.1 entry.2 ((to_table_get document entry.1).symm.trans found)
  obtain ⟨canonical, key⟩ := sound binding bound
  exact ⟨key entry.1 named, same ▸ Value.canonical_plain _ canonical⟩

theorem to_table_lookup (document : Document) (sound : document.Sound) (name : Text) :
    (Value.content .empty (document.toTable.cleared false).entries).lookup name =
      (document.lookup name).bind fun item =>
        if item.inProlog then none else some item.value.cell := by
  have ordered := to_table_ordered document
  rw [Table.cleared, Value.content_lookup _ _ (Value.entries_cleared_ordered false _ ordered),
    Value.entries_cleared_lookup false _ ordered, ← to_table_get, Table.get?]
  cases found : Keyed.lookup name document.toTable.entries with
  | none => rfl
  | some item =>
    have plain := (to_table_sound document sound _ (Keyed.lookup_mem name item _ found)).2
    cases flag : item.inProlog with
    | true => simp [flag]; rfl
    | false => simp [flag, Value.plain_cleared false item.value plain]

-- The table has the last binding of each name, also one from a prolog, and so hides those before it.
def Unhidden (document : Document) : Prop :=
  ∀ binding ∈ document.bindings, ∀ name, binding.name = some name → binding.item.inProlog = false →
    ∀ last, document.lookup name = some last → last.inProlog = false

-- What is left of the entries when names that are bound last in a prolog are taken out.
def Tabled (document : Document) (entries tabled : Entries) : Prop :=
  ∀ name, tabled.lookup name = (document.lookup name).bind fun item =>
    if item.inProlog then none else entries.lookup name

theorem tabled_kept (document : Document) (sound : document.Sound) :
    document.Tabled (Value.content .empty document.kept)
      (Value.content .empty (document.toTable.cleared false).entries) := by
  intro name
  rw [to_table_lookup document sound name, kept_lookup]
  cases found : document.lookup name with
  | none => rfl
  | some item =>
    cases flag : item.inProlog with
    | true => simp [flag]
    | false =>
      obtain ⟨binding, last, rfl⟩ :=
        Option.map_eq_some_iff.mp (lookup_last_kept document name item found flag)
      simp [flag, last]

theorem tabled_same_iff (document : Document) (entries tabled : Entries)
    (makes : document.Makes entries) (shown : document.Tabled entries tabled) :
    entries = tabled ↔ document.Unhidden := by
  constructor
  · rintro rfl binding member name named unflagged last found
    have present := (makes.keys name).mpr ⟨binding, member, named, unflagged⟩
    rw [Entries.keys, Keyed.mem_keys_iff, ← Entries.lookup, shown name, found] at present
    cases flag : last.inProlog with
    | false => rfl
    | true => simp [flag] at present
  · intro unhidden
    refine Entries.eq_of_cells _ _
      (Keyed.ordered_ext _ _ entries.ordered tabled.ordered fun name => ?_)
    rw [← Entries.lookup, ← Entries.lookup, shown name]
    cases held : entries.lookup name with
    | none => cases document.lookup name <;> simp
    | some cell =>
      have present : name ∈ entries.keys := by
        rw [Entries.keys, Keyed.mem_keys_iff, ← Entries.lookup, held]
        rfl
      obtain ⟨binding, member, named, unflagged⟩ := (makes.keys name).mp present
      obtain ⟨last, found⟩ := bound_lookup document binding member name named
      simp [found, unhidden binding member name named unflagged last found]

theorem read_to_table (options : ParseOptions) (source : Text) (document : Document)
    (done : read options source = .ok document) (depot other : Depot) (home target : Nat) :
    ∃ set tally copy, (document.materialize depot home).2 = .ok (set, tally) ∧
      (document.toTable.materialize other target).2 = .ok copy ∧
      document.Tabled set.entries copy.entries ∧
      ((set.sameContent copy = true ∧ set.id = copy.id) ↔ document.Unhidden) := by
  have sound := read_sound options source document done
  obtain ⟨tally, made⟩ := materialize_outcome document sound depot home
  have plain := Value.entries_cleared_plain false document.toTable.entries (to_table_sound document sound)
  have again := Table.materialize_outcome (document.toTable.cleared false) plain other target
  rw [← Table.materialize_cleared] at again
  have shown := tabled_kept document sound
  refine ⟨_, tally, _, made, again, shown, ?_⟩
  rw [← tabled_same_iff document _ _ (kept_makes document sound) shown]
  refine ⟨fun both => eq_of_beq both.1, fun equal => ?_⟩
  rw [equal]
  exact ⟨beq_self_eq_true _, rfl⟩

def openSource : Text := "BEGIN_PROLOG a: true END_PROLOG a: \x7bb: a\x7d".toList

def openDocument : Document :=
  ⟨[⟨some ['a'], ⟨true, .bool true⟩, ⟨1, 14⟩⟩,
    ⟨some ['a'], ⟨false, .table [(['b'], ⟨false, .bool true⟩)]⟩, ⟨1, 33⟩⟩], [], []⟩

theorem read_to_table_open :
    read .lenient openSource = .ok openDocument ∧ openDocument.Unhidden ∧
      ∃ set tally copy, (openDocument.materialize ⟨[.empty]⟩ 0).2 = .ok (set, tally) ∧
        (openDocument.toTable.materialize ⟨[.empty]⟩ 0).2 = .ok copy ∧
        set.sameContent copy = true ∧ set.id = copy.id := by
  have done : read .lenient openSource = .ok openDocument := by decide +kernel
  have unhidden : openDocument.Unhidden := by
    intro binding member name named unflagged last found
    rcases List.mem_cons.mp member with rfl | later
    · cases unflagged
    · obtain rfl := List.mem_singleton.mp later
      cases named
      cases found
      rfl
  obtain ⟨set, tally, copy, made, again, _, same⟩ :=
    read_to_table .lenient openSource openDocument done ⟨[.empty]⟩ ⟨[.empty]⟩ 0 0
  exact ⟨done, unhidden, set, tally, copy, made, again, same.mpr unhidden⟩

def hiddenSource : Text := "a: nil BEGIN_PROLOG a: true END_PROLOG".toList

def hidden : Document :=
  ⟨[⟨some ['a'], ⟨false, .nil⟩, ⟨1, 1⟩⟩, ⟨some ['a'], ⟨true, .bool true⟩, ⟨1, 21⟩⟩], [], []⟩

theorem to_table_hides :
    read .lenient hiddenSource = .ok hidden ∧
      ∃ set tally copy, (hidden.materialize ⟨[.empty]⟩ 0).2 = .ok (set, tally) ∧
        (hidden.toTable.materialize ⟨[.empty]⟩ 0).2 = .ok copy ∧
        set.keys = [['a']] ∧ copy.keys = [] ∧ set.sameContent copy = false ∧ set.id ≠ copy.id := by
  have done : read .lenient hiddenSource = .ok hidden := by decide +kernel
  exact ⟨done, _, _, _, rfl, rfl, rfl, rfl, by decide +kernel, by decide +kernel⟩

end Document
end ParamStore

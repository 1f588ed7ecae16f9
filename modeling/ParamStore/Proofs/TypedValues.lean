import ParamStore.Proofs.IntegerTexts
import ParamStore.Proofs.PathUpdates
import ParamStore.Proofs.StringTexts

set_option autoImplicit false

namespace ParamStore

namespace Ty

def NeverNil (ty : Ty) : Prop :=
  ∀ home value before cell after, ty.encode home value before = .ok (cell, after) → cell.isNil = false

def mayBeNil : Ty → Bool
  | nil => true
  | cell => true
  | option _ => true
  | _ => false

theorem never_nil_iff (ty : Ty) : ty.NeverNil ↔ ty.mayBeNil = false := by
  constructor
  · intro never
    cases ty with
    | nil => exact absurd (never 0 () ⟨[]⟩ _ _ rfl) (by decide)
    | cell => exact absurd (never 0 Cell.nil ⟨[]⟩ _ _ rfl) (by decide)
    | option inner => exact absurd (never 0 none ⟨[]⟩ _ _ rfl) (by decide)
    | _ => rfl
  · intro plain home value before cell after done
    cases ty with
    | nil => cases plain
    | cell => cases plain
    | option inner => cases plain
    | bool | int _ | single | double | complex | string =>
      obtain ⟨_, atom, rfl, writes⟩ := encode_atom home _ rfl value before cell after done
      cases writes
      rfl
    | set =>
      obtain ⟨stored, _, same⟩ := (Outcome.map_ok _ _ _).mp done
      cases same
      rfl
    | list inner =>
      obtain ⟨encoded, _, same⟩ := (Outcome.map_ok _ _ _).mp done
      cases same
      rfl

-- Types whose values can be told from their cells. Floats are left out, and options of what may be nil.
def Lossless : Ty → Prop
  | single => False
  | double => False
  | complex => False
  | option inner => inner.NeverNil ∧ inner.Lossless
  | list inner => inner.Lossless
  | _ => True

def textsIn : (ty : Ty) → ty.Value → List Text
  | string, value => [value]
  | option _, none => []
  | option inner, some value => textsIn inner value
  | list inner, values => List.flatMap (textsIn inner) values
  | _, _ => []

def Same : (ty : Ty) → ty.Value → ty.Value → Prop
  | set, value, other => value.sameContent other = true
  | option inner, value, other => Option.Rel (Same inner) value other
  | list inner, values, others => List.Forall₂ (Same inner) values others
  | _, value, other => value = other

def ReadsBack (ty : Ty) (depot : Depot) (home : Nat) (value : ty.Value) (cell : Cell) : Prop :=
  ty.accepts cell = true ∧ ∃ other, ty.decode depot home cell = .ok other ∧ ty.Same value other

def Knows (depot : Depot) (home : Nat) (sets : List ParameterSet) : Prop :=
  ∀ used ∈ sets, ∀ entries, (depot.store home).lookup used.id = some entries → entries = used.entries

theorem encode_items_read (home : Nat) (inner : Ty) (last : Depot)
    (each : ∀ value before cell after, before.Sound → home < before.stores.length →
      (∀ used ∈ inner.setsIn value, before.Backs used) → Depot.Grows after last →
      Knows last home (inner.setsIn value) → (∀ text ∈ inner.textsIn value, ¬ text.Bounded) →
      inner.encode home value before = .ok (cell, after) → inner.ReadsBack last home value cell)
    (values : List inner.Value) (before : Depot) (cells : List Cell) (after : Depot)
    (sound : before.Sound) (inside : home < before.stores.length)
    (backed : ∀ value ∈ values, ∀ used ∈ inner.setsIn value, before.Backs used)
    (later : Depot.Grows after last)
    (known : ∀ value ∈ values, Knows last home (inner.setsIn value))
    (unbounded : ∀ value ∈ values, ∀ text ∈ inner.textsIn value, ¬ text.Bounded)
    (done : encodeItems (inner.encode home) values before = .ok (cells, after)) :
    cells.all inner.accepts = true ∧ ∃ others, cells.mapM (inner.decode last home) = .ok others ∧
      List.Forall₂ inner.Same values others := by
  induction values generalizing before cells with
  | nil =>
    cases done
    exact ⟨rfl, [], rfl, .nil⟩
  | cons value tail ih =>
    simp only [encodeItems, Outcome.bind_ok] at done
    obtain ⟨⟨first, next⟩, one, ⟨rest, finish⟩, others, result⟩ := done
    cases result
    have here := List.mem_cons_self (a := value) (l := tail)
    obtain ⟨grows, _⟩ := encode_grows home inner value before first next sound inside
      (backed value here) one
    have soundNext := Depot.grows_sound before next grows
    have insideNext := Nat.lt_of_lt_of_le inside grows.count
    have backedNext : ∀ other ∈ tail, ∀ used ∈ inner.setsIn other, next.Backs used :=
      fun other member used present => Depot.grows_backs before next grows used
        (backed other (List.mem_cons_of_mem _ member) used present)
    obtain ⟨onwards, _⟩ := encode_items_grows home inner.setsIn (inner.encode home)
      (encode_grows home inner) tail next soundNext insideNext backedNext rest finish others
    obtain ⟨shape, found, decoded, same⟩ := each value before first next sound inside
      (backed value here) (Depot.grows_trans _ _ _ onwards later) (known value here)
      (unbounded value here) one
    obtain ⟨shapes, founds, decodedRest, sameRest⟩ := ih next rest soundNext insideNext backedNext
      (fun other member => known other (List.mem_cons_of_mem _ member))
      (fun other member => unbounded other (List.mem_cons_of_mem _ member)) others
    refine ⟨?_, found :: founds, ?_, .cons same sameRest⟩
    · rw [List.all_cons, shape, shapes]
      rfl
    · rw [List.mapM_cons, decoded]
      simp only [decodedRest, bind, Except.bind]
      rfl

theorem writes_reads (ty : Ty) (lossless : ty.Lossless) (depot : Depot) (home : Nat)
    (value : ty.Value) (atom : Atom) (unbounded : ∀ text ∈ ty.textsIn value, ¬ text.Bounded)
    (writes : ty.Writes value atom) : ty.ReadsBack depot home value (.atom atom) := by
  cases writes with
  | nil => exact ⟨rfl, (), rfl, rfl⟩
  | bool flag => cases flag <;> exact ⟨rfl, _, rfl, rfl⟩
  | int type number => exact ⟨rfl, number, (decode_sized_encode type number.1).1 number.2, rfl⟩
  | single => exact lossless.elim
  | double => exact lossless.elim
  | complex => exact lossless.elim
  | string text written encoded =>
    have content := Text.unbounded_content text (unbounded text (List.mem_singleton_self text))
    have canonical : written = Text.canonical text := by
      simp only [encodeString, content, Except.map] at encoded
      exact (Except.ok.inj encoded).symm
    subst canonical
    exact ⟨rfl, text, decode_canonical text, rfl⟩

theorem encode_set_reads (home : Nat) (last : Depot) (value : ParameterSet) (before : Depot)
    (cell : Cell) (after : Depot) (sound : before.Sound) (inside : home < before.stores.length)
    (backed : before.Backs value) (later : Depot.Grows after last) (known : Knows last home [value])
    (done : Ty.set.encode home value before = .ok (cell, after)) :
    Ty.set.ReadsBack last home value cell := by
  obtain ⟨filled, stored, _, present⟩ := Depot.put_grows before sound home value inside backed
  simp only [encode, stored, Except.map, Except.ok.injEq, Prod.mk.injEq] at done
  obtain ⟨rfl, rfl⟩ := done
  have kept := Store.keeps_contains _ _ (later.stores home).keeps value.id present
  obtain ⟨entries, found⟩ := (Store.contains_iff _ _).mp kept
  have same := known value (List.mem_singleton_self value) entries found
  have fetched : last.fetch home value.id = .ok ⟨home, entries, some value.id⟩ := by
    rw [Depot.fetch, Store.entries, found]
    rfl
  exact ⟨rfl, _, fetched, by simp [Same, ParameterSet.sameContent, same]⟩

theorem encode_some_reads (home : Nat) (inner : Ty) (last : Depot) (value : inner.Value)
    (cell : Cell) (present : cell.isNil = false) (reads : inner.ReadsBack last home value cell) :
    (Ty.option inner).ReadsBack last home (some value) cell := by
  obtain ⟨shape, other, decoded, same⟩ := reads
  refine ⟨?_, some other, ?_, .some same⟩
  · rw [accepts, shape, Bool.or_true]
  · change (if cell.isNil then _ else (inner.decode last home cell).map some) = _
    rw [present, decoded]
    rfl

theorem encode_reads (home : Nat) (ty : Ty) (lossless : ty.Lossless) (last : Depot) (value : ty.Value)
    (before : Depot) (cell : Cell) (after : Depot) (sound : before.Sound)
    (inside : home < before.stores.length) (backed : ∀ used ∈ ty.setsIn value, before.Backs used)
    (later : Depot.Grows after last) (known : Knows last home (ty.setsIn value))
    (unbounded : ∀ text ∈ ty.textsIn value, ¬ text.Bounded)
    (done : ty.encode home value before = .ok (cell, after)) : ty.ReadsBack last home value cell := by
  induction ty generalizing before cell after with
  | nil | bool | int _ | single | double | complex | string =>
    obtain ⟨rfl, atom, rfl, writes⟩ := encode_atom home _ rfl value before cell after done
    exact writes_reads _ lossless last home value atom unbounded writes
  | set =>
    exact encode_set_reads home last value before cell after sound inside
      (backed value (List.mem_singleton_self value)) later known done
  | cell =>
    obtain ⟨_, _, same⟩ := (Outcome.map_ok _ _ _).mp done
    cases same
    exact ⟨rfl, _, rfl, rfl⟩
  | option inner ih =>
    cases value with
    | none =>
      cases done
      exact ⟨rfl, none, rfl, .none⟩
    | some value =>
      exact encode_some_reads home inner last value cell (lossless.1 home value before cell after done)
        (ih lossless.2 value before cell after sound inside backed later known unbounded done)
  | list inner ih =>
    obtain ⟨⟨cells, filled⟩, made, same⟩ := (Outcome.map_ok _ _ _).mp done
    cases same
    exact encode_items_read home inner last
      (fun value before cell after sound inside backed later known unbounded done =>
        ih lossless value before cell after sound inside backed later known unbounded done)
      value before cells filled sound inside
      (fun item member used present => backed used (List.mem_flatMap.mpr ⟨item, member, present⟩))
      later
      (fun item member used present => known used (List.mem_flatMap.mpr ⟨item, member, present⟩))
      (fun item member text present => unbounded text (List.mem_flatMap.mpr ⟨item, member, present⟩))
      made

end Ty

namespace ParameterSet

theorem read_found (depot : Depot) (set : ParameterSet) (ty : Ty) (path : Text) (cell : Cell)
    (found : set.find (depot.store set.home) path = .ok cell) (shape : ty.accepts cell = true)
    (value : ty.Value) (decoded : ty.decode depot set.home cell = .ok value) :
    set.get depot ty path = .ok value ∧ (∀ fallback, set.getOr depot ty path fallback = .ok value) ∧
      set.getIfPresent depot ty path = .ok (some value) := by
  refine ⟨?_, fun fallback => ?_, ?_⟩
  · simp only [get, found, bind, Except.bind, decoded]
    rfl
  · simp only [getOr, found, shape, if_true, decoded]
    rfl
  · simp only [getIfPresent, found, decoded]
    rfl

end ParameterSet

namespace Session

theorem put_reads_back (session : Session) (reachable : session.Reachable) (name : Text)
    (set : ParameterSet) (found : session.sets.lookup name = some set) (ty : Ty)
    (lossless : ty.Lossless) (value : ty.Value)
    (live : ∀ used ∈ ty.setsIn value, ∃ known, session.sets.lookup known = some used)
    (unbounded : ∀ text ∈ ty.textsIn value, ¬ text.Bounded) (path : Text) (overwrite : Bool)
    (changed : ParameterSet) (after : Depot)
    (done : set.put session.depot ty path overwrite value = ((changed, after), .ok ()))
    (apart : Entries.Apart (set.involved session.depot ty path overwrite value ++
      (ty.setsIn value).map ParameterSet.entries)) :
    ∃ other, ty.Same value other ∧ changed.get after ty path = .ok other ∧
      (∀ fallback, changed.getOr after ty path fallback = .ok other) ∧
      changed.getIfPresent after ty path = .ok (some other) := by
  have sound := reachable_sound session reachable
  have backs := sound.sets name set found
  have backed : ∀ used ∈ ty.setsIn value, session.depot.Backs used := by
    intro used member
    obtain ⟨known, present⟩ := live used member
    exact sound.sets known used present
  obtain ⟨cell, filled, parsed, put⟩ := ParameterSet.put_done session.depot sound.depot set backs ty
    value backed path overwrite changed after done
    (Entries.apart_subset _ _ apart (List.subset_append_left _ _))
  -- What the store has under the identifier of a set came into it, and so did the set.
  have known : Ty.Knows after set.home (ty.setsIn value) := by
    intro used member entries read
    obtain ⟨named, involved⟩ := put.within used.id entries read
    refine apart entries (List.mem_append_left _ involved) used.entries
      (List.mem_append_right _ (List.mem_map.mpr ⟨used, member, rfl⟩)) ?_
    rw [← named, Depot.id_of_backs session.depot used (backed used member)]
  obtain ⟨shape, other, decoded, same⟩ := Ty.encode_reads set.home ty lossless after value session.depot
    cell filled sound.depot backs.home backed put.late known unbounded put.encoded
  have here := ParameterSet.updates_here _ set changed path parsed cell put.read put.updates
  rw [← put.home] at here decoded
  exact ⟨other, same, ParameterSet.read_found after changed ty path cell here shape other decoded⟩

def lending : Session :=
  Session.empty.run [.openStore ['r'], .openStore ['s'], .create ['p'] ['r'], .create ['q'] ['s'],
    .put ['q'] ['a', '.', 'b'] (.int .u128) ⟨_, IntType.u128.holds_greatest⟩]

theorem put_reads_back_lending :
    lending.Reachable ∧ (Ty.list (.option .set)).Lossless ∧
      ∃ p q changed after, lending.sets.lookup ['p'] = some p ∧ lending.sets.lookup ['q'] = some q ∧
        p.put lending.depot (.list (.option .set)) ['k', '[', '0', ']'] true [some q, none] =
          ((changed, after), .ok ()) ∧
        ∃ copy, copy.sameContent q = true ∧
          changed.get after (.list (.option .set)) ['k', '[', '0', ']'] = .ok [some copy, none] := by
  have reachable : lending.Reachable :=
    leads_run .empty .empty .refl _ (permits_plain _ _ (by simp [Operation.sets, Ty.setsIn]))
  have lossless : (Ty.list (.option .set)).Lossless := ⟨(Ty.never_nil_iff .set).mpr rfl, trivial⟩
  have checked : (lending.sets.lookup ['p']).any (fun p => (lending.sets.lookup ['q']).any fun q =>
      decide ((p.put lending.depot (.list (.option .set)) ['k', '[', '0', ']'] true
        [some q, none]).2 = .ok () ∧
      Entries.Apart (p.involved lending.depot (.list (.option .set)) ['k', '[', '0', ']'] true
        [some q, none] ++ [q.entries]))) = true := by decide +kernel
  obtain ⟨p, found, inner⟩ := (Option.any_eq_true _ _).mp checked
  obtain ⟨q, lent, decided⟩ := (Option.any_eq_true _ _).mp inner
  obtain ⟨succeeds, apart⟩ := of_decide_eq_true decided
  obtain ⟨changed, after, done⟩ : ∃ changed after,
      p.put lending.depot (.list (.option .set)) ['k', '[', '0', ']'] true [some q, none] =
        ((changed, after), .ok ()) := ⟨_, _, Prod.ext rfl succeeds⟩
  obtain ⟨other, same, read, _⟩ := put_reads_back lending reachable ['p'] p found
    (.list (.option .set)) lossless [some q, none]
    (by intro used member; rw [List.mem_singleton.mp member]; exact ⟨['q'], lent⟩)
    (by rintro _ ⟨⟩) ['k', '[', '0', ']'] true changed after done apart
  cases same with
  | cons first rest =>
    cases first with
    | some content =>
      cases rest with
      | cons second last =>
        cases second
        cases last
        refine ⟨reachable, lossless, p, q, changed, after, found, lent, done, _, ?_, read⟩
        have entries : q.entries = _ := beq_iff_eq.mp content
        simp [ParameterSet.sameContent, entries]

end Session
end ParamStore

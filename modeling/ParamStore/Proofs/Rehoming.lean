import ParamStore.Proofs.EncodeCells
import ParamStore.Proofs.StoreCopies
import ParamStore.Proofs.StoreViews

set_option autoImplicit false

namespace ParamStore
namespace Store

theorem grown_within (store : Store) (grown : Grown store.contents) (contents : List Entries)
    (known : store.contents.map Prod.snd ⊆ contents) : store.Within contents := by
  intro id entries found
  refine ⟨(grown_lookup store.contents grown id entries found).1, known ?_⟩
  exact List.mem_map.mpr ⟨(id, entries), (grown_mem_iff store.contents grown id entries).mpr found, rfl⟩

theorem within_agrees (contents : List Entries) (apart : Entries.Apart contents) (left right : Store)
    (within : left.Within contents) (otherWithin : right.Within contents) : Agrees left right := by
  intro id entries other here there
  obtain ⟨named, member⟩ := within id entries here
  obtain ⟨otherNamed, otherMember⟩ := otherWithin id other there
  exact apart entries member other otherMember (named.symm.trans otherNamed)

theorem grown_nodup (contents : List (Identifier × Entries)) (grown : Grown contents) :
    (contents.map Prod.fst).Nodup := by
  induction grown with
  | nil => exact List.nodup_nil
  | cons newest older below fresh _ ih =>
    refine List.nodup_cons.mpr ⟨fun member => ?_, ih⟩
    obtain ⟨⟨id, entries⟩, stored, same⟩ := List.mem_map.mp member
    cases same
    have found := (grown_mem_iff older below newest.identifier entries).mp stored
    cases fresh.symm.trans found

end Store

namespace Depot

theorem put_elsewhere (depot after : Depot) (target : Nat) (set : ParameterSet)
    (inside : target < depot.stores.length) (id : Identifier)
    (done : depot.put target set = .ok (id, after)) (number : Nat) (other : number ≠ target) :
    after.store number = depot.store number := by
  rw [put] at done
  split at done
  · cases done
    rfl
  · split at done
    · cases done
      rw [store_set_store depot target number _ inside, if_neg other]
    · obtain ⟨filled, _, made⟩ := (Outcome.bind_ok _ _ _).mp done
      cases made
      rw [store_set_store depot target number _ inside, if_neg other]

theorem put_adds (depot after : Depot) (sound : depot.Sound) (target : Nat) (set : ParameterSet)
    (inside : target < depot.stores.length) (known : Identifier)
    (done : depot.put target set = .ok (known, after)) (id : Identifier) (entries : Entries)
    (found : (after.store target).lookup id = some entries) :
    (depot.store target).lookup id = some entries ∨ (id = set.id ∧ entries = set.entries) ∨
      ((depot.store set.home).Reaches set.entries.tables id ∧
        (depot.store set.home).lookup id = some entries) := by
  -- The set itself is inserted last, on top of what was copied.
  have last : ∀ filled : Store, (filled.insert set.id set.entries).lookup id = some entries →
      (id = set.id ∧ entries = set.entries) ∨ filled.lookup id = some entries := by
    intro filled present
    rw [Store.lookup_insert] at present
    split at present
    · rename_i taken
      cases present
      exact .inl ⟨taken.1, rfl⟩
    · exact .inr present
  rw [put] at done
  split at done
  · cases done
    exact .inl found
  · split at done
    · cases done
      rw [store_set_store depot target target _ inside, if_pos rfl] at found
      exact (last _ found).elim (fun own => .inr (.inl own)) .inl
    · obtain ⟨filled, copied, made⟩ := (Outcome.bind_ok _ _ _).mp done
      cases made
      rw [store_set_store depot target target _ inside, if_pos rfl] at found
      rcases last filled found with own | present
      · exact .inr (.inl own)
      · have adds := Store.adopt_below_adds (depot.store set.home) (depot.store target) filled
          (sound set.home) set.entries copied
        exact (adds id entries present).imp_right .inr

def involved (depot : Depot) (target : Nat) (set : ParameterSet) : List Entries :=
  set.entries :: ((depot.store set.home).contents.map Prod.snd ++
    (depot.store target).contents.map Prod.snd)

-- Without a collision the store has the set itself under its identifier, and nothing that differs from
-- what the home of the set has.
theorem put_agrees (depot after : Depot) (sound : depot.Sound) (target : Nat) (set : ParameterSet)
    (inside : target < depot.stores.length) (backs : depot.Backs set)
    (apart : Entries.Apart (depot.involved target set))
    (done : depot.put target set = .ok (set.id, after)) (grows : Grows depot after)
    (present : (after.store target).contains set.id = true) :
    Store.Agrees (depot.store set.home) (after.store target) ∧
      (after.store target).lookup set.id = some set.entries := by
  have own : set.entries ∈ depot.involved target set := List.mem_cons_self ..
  have within := Store.grown_within _ (sound set.home) (depot.involved target set) fun _ member =>
    List.mem_cons_of_mem _ (List.mem_append_left _ member)
  have targetWithin := Store.grown_within _ (sound target) (depot.involved target set) fun _ member =>
    List.mem_cons_of_mem _ (List.mem_append_right _ member)
  have afterWithin : (after.store target).Within (depot.involved target set) := by
    intro id entries read
    refine ⟨(Store.grown_lookup _ (grows.stores target).grown id entries read).1, ?_⟩
    rcases put_adds depot after sound target set inside set.id done id entries read with
      old | ⟨_, rfl⟩ | ⟨_, copied⟩
    · exact (targetWithin id entries old).2
    · exact own
    · exact (within id entries copied).2
  refine ⟨Store.within_agrees _ apart _ _ within afterWithin, ?_⟩
  obtain ⟨entries, read⟩ := (Store.contains_iff _ _).mp present
  obtain ⟨same, member⟩ := afterWithin set.id entries read
  have named := id_of_backs depot set backs
  rw [read, apart entries member set.entries own (same.symm.trans named)]

end Depot

namespace Session

theorem rehome (session : Session) (reachable : session.Reachable) (name : Text) (set : ParameterSet)
    (found : session.sets.lookup name = some set) (target : Nat)
    (inside : target < session.depot.stores.length)
    (apart : Entries.Apart (session.depot.involved target set)) :
    ∃ after copy, session.depot.put target set = .ok (set.id, after) ∧
      after.fetch target set.id = .ok copy ∧ copy.home = target ∧ copy.sameContent set = true ∧
      ParameterSet.Alike (session.homeOf set) set (after.store copy.home) copy ∧
      (∀ id entries, (after.store target).lookup id = some entries ↔
        (session.depot.store target).lookup id = some entries ∨
          (id = set.id ∧ entries = set.entries) ∨
          ((session.homeOf set).Reaches set.entries.tables id ∧
            (session.homeOf set).lookup id = some entries)) ∧
      ((after.store target).contents.map Prod.fst).Nodup ∧
      ∀ number, number ≠ target → after.store number = session.depot.store number := by
  have sound := reachable_sound session reachable
  have backs := sound.sets name set found
  obtain ⟨after, stored, grows, present⟩ :=
    Depot.put_grows session.depot sound.depot target set inside backs
  obtain ⟨agrees, kept⟩ := Depot.put_agrees session.depot after sound.depot target set inside backs
    apart stored grows present
  have grown := (grows.stores target).grown
  have held := Store.grown_holds _ grown set.id set.entries kept
  refine ⟨after, ⟨target, set.entries, some set.id⟩, stored, ?_, rfl, ?_, ?_, ?_, ?_, ?_⟩
  · rw [Depot.fetch, Store.entries, kept]
    rfl
  · simp [ParameterSet.sameContent]
  · exact ParameterSet.alike_of_agrees _ _ (sound.depot set.home) grown agrees set _ rfl backs.tables
      held
  · intro id entries
    refine ⟨Depot.put_adds session.depot after sound.depot target set inside set.id stored id entries,
      ?_⟩
    rintro (old | ⟨rfl, rfl⟩ | ⟨reached, read⟩)
    · exact (grows.stores target).keeps id entries old
    · exact kept
    · have there := Store.reached_held _ _ grown agrees set.entries.tables held id reached
      obtain ⟨other, copied⟩ := (Store.contains_iff _ id).mp there
      rw [copied, agrees id entries other read copied]
  · exact Store.grown_nodup _ grown
  · exact Depot.put_elsewhere session.depot after target set inside set.id stored

def travelling : Session :=
  Session.empty.run [.openStore ['r'], .openStore ['s'], .create ['q'] ['s'],
    .put ['q'] ['a', '.', 'b'] .bool true, .create ['p'] ['r'], .put ['p'] ['a', '.', 'b'] .bool true,
    .put ['p'] ['c', '[', '0', ']', '.', 'd'] .nil ()]

theorem rehome_travelling :
    travelling.Reachable ∧ ∃ set, travelling.sets.lookup ['p'] = some set ∧
      1 < travelling.depot.stores.length ∧
      Entries.Apart (travelling.depot.involved 1 set) ∧
      ∃ after copy, travelling.depot.put 1 set = .ok (set.id, after) ∧
        after.fetch 1 set.id = .ok copy ∧ copy.json (after.store 1) = set.json (travelling.homeOf set) ∧
        after.store 0 = travelling.depot.store 0 := by
  have reachable : travelling.Reachable :=
    leads_run .empty .empty .refl _ (permits_plain _ _ (by simp [Operation.sets, Ty.setsIn]))
  have inside : 1 < travelling.depot.stores.length := by decide +kernel
  have checked : (travelling.sets.lookup ['p']).any (fun set =>
      decide (Entries.Apart (travelling.depot.involved 1 set))) = true := by decide +kernel
  obtain ⟨set, found, decided⟩ := (Option.any_eq_true _ _).mp checked
  have apart := of_decide_eq_true decided
  obtain ⟨after, copy, stored, fetched, home, _, alike, _, _, others⟩ :=
    rehome travelling reachable ['p'] set found 1 inside apart
  rw [home] at alike
  exact ⟨reachable, set, found, inside, apart, after, copy, stored, fetched, alike.json,
    others 0 (by decide)⟩

end Session
end ParamStore

import ParamStore.Proofs.SessionRuns

set_option autoImplicit false

namespace ParamStore
namespace Session

-- Nothing is assumed of the digest: identifiers may even collide.
structure Intact (session : Session) : Prop where
  named : ∀ number id entries, (id, entries) ∈ (session.depot.store number).contents →
    id = entries.identifier
  single : ∀ number id entries other, (id, entries) ∈ (session.depot.store number).contents →
    (id, other) ∈ (session.depot.store number).contents → entries = other
  closed : ∀ number id entries child, (id, entries) ∈ (session.depot.store number).contents →
    child ∈ entries.tables → (session.depot.store number).contains child = true
  backed : ∀ name set child, session.sets.lookup name = some set → child ∈ set.entries.tables →
    (session.homeOf set).contains child = true
  cached : ∀ name set id, session.sets.lookup name = some set → set.known = some id →
    id = set.entries.identifier

theorem sound_intact (session : Session) (sound : session.Sound) : Intact session where
  named number id entries member :=
    (Store.grown_lookup _ (sound.depot number) id entries
      ((Store.grown_mem_iff _ (sound.depot number) id entries).mp member)).1
  single number id entries other member present := by
    have first := (Store.grown_mem_iff _ (sound.depot number) id entries).mp member
    have second := (Store.grown_mem_iff _ (sound.depot number) id other).mp present
    exact Option.some.inj (first.symm.trans second)
  closed number id entries child member inside :=
    Store.grown_holds _ (sound.depot number) id entries
      ((Store.grown_mem_iff _ (sound.depot number) id entries).mp member) child inside
  backed name set child found inside := (sound.sets name set found).tables child inside
  cached name set id found worked := (sound.sets name set found).known id worked

theorem run_intact (session : Session) (reachable : session.Reachable) :
    Intact session ∧ ∀ later, session.Leads later → ∀ number id entries,
      (session.depot.store number).lookup id = some entries →
        (later.depot.store number).lookup id = some entries := by
  have sound := reachable_sound session reachable
  refine ⟨sound_intact session sound, fun later run number id entries found => ?_⟩
  exact ((leads_grows session later sound run).depot.stores number).keeps id entries found

def rehoming : List Operation :=
  [.openStore ['r'], .openStore ['s'], .create ['p'] ['r'],
    .put ['p'] ['a', '.', 'b'] .bool true, .keep ['s'] ['p'], .put ['p'] ['a', '[', '0', ']'] .nil (),
    .put ['p'] ['c'] .string ['x']]

theorem rehoming_reachable : Reachable (Session.empty.run rehoming) :=
  leads_run .empty .empty .refl rehoming (permits_plain _ rehoming (by simp [rehoming, Operation.sets, Ty.setsIn]))

theorem run_intact_rehoming :
    (Session.empty.run rehoming).Reachable ∧
      (Session.empty.run rehoming).depot.stores.map Store.size = [1, 2] ∧
      Intact (Session.empty.run rehoming) :=
  ⟨rehoming_reachable, by decide +kernel, (run_intact _ rehoming_reachable).1⟩

end Session
end ParamStore

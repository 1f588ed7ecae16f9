import ParamStore.Error

set_option autoImplicit false

namespace ParamStore
namespace Outcome

variable {ε δ α β : Type}

theorem bind_ok (first : Except ε α) (next : α → Except ε β) (result : β) :
    (first >>= next) = .ok result ↔ ∃ middle, first = .ok middle ∧ next middle = .ok result := by
  cases first <;> simp [bind, Except.bind]

theorem map_ok (step : α → β) (first : Except ε α) (result : β) :
    first.map step = .ok result ↔ ∃ middle, first = .ok middle ∧ step middle = result := by
  cases first <;> simp [Except.map]

theorem map_error_error (step : ε → δ) (first : Except ε α) (result : δ) :
    first.mapError step = .error result ↔ ∃ cause, first = .error cause ∧ step cause = result := by
  cases first with
  | ok found =>
    constructor
    · intro same
      cases same
    · rintro ⟨_, same, _⟩
      cases same
  | error cause =>
    constructor
    · intro same
      exact ⟨cause, rfl, Except.error.inj same⟩
    · rintro ⟨_, same, rfl⟩
      cases same
      rfl

theorem map_error_ok (step : ε → δ) (first : Except ε α) (result : α) :
    first.mapError step = .ok result ↔ first = .ok result := by
  cases first with
  | ok found =>
    change Except.ok found = _ ↔ _
    rw [Except.ok.injEq, Except.ok.injEq]
  | error cause =>
    constructor
    · intro same
      cases same
    · intro same
      cases same

theorem map_error_bind (rename : ε → δ) (first : Except ε α) (next : α → Except ε β) :
    (first >>= next).mapError rename =
      (first.mapError rename >>= fun middle => (next middle).mapError rename) := by
  cases first <;> rfl

instance decidableOk [DecidableEq α] (outcome : Except ε α) (result : α) :
    Decidable (outcome = .ok result) :=
  match outcome with
  | .ok found => decidable_of_iff (found = result) (by simp)
  | .error _ => isFalse nofun

instance decidableError [DecidableEq ε] (outcome : Except ε α) (cause : ε) :
    Decidable (outcome = .error cause) :=
  match outcome with
  | .ok _ => isFalse nofun
  | .error found => decidable_of_iff (found = cause) (by simp)

end Outcome
end ParamStore

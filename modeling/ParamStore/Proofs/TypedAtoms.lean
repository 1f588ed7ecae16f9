import ParamStore.ParameterSet.Typed
import ParamStore.Proofs.Outcome

set_option autoImplicit false

namespace ParamStore
namespace Ty

def isAtomic : Ty → Bool
  | set => false
  | cell => false
  | option _ => false
  | list _ => false
  | _ => true

inductive Writes : (ty : Ty) → ty.Value → Atom → Prop where
  | nil : Writes nil () ⟨.nil, nilWord⟩
  | bool (value : Bool) : Writes bool value ⟨.bool, encodeBool value⟩
  | int (type : IntType) (value : type.Number) :
      Writes (int type) value ⟨.integer, encodeInt value.1⟩
  | single (value : Single) (text : Text) (written : encodeFloat value.widen = .ok text) :
      Writes single value ⟨.float, text⟩
  | double (value : Double) (text : Text) (written : encodeFloat value = .ok text) :
      Writes double value ⟨.float, text⟩
  | complex (value : Complex) (re im : Text) (first : encodeFloat value.re = .ok re)
      (second : encodeFloat value.im = .ok im) : Writes complex value ⟨.complex, Complex.join re im⟩
  | string (value text : Text) (written : encodeString value = .ok text) :
      Writes string value ⟨.string, text⟩

theorem encode_double_atom (value : Double) (cell : Cell) (done : encodeDouble value = .ok cell) :
    ∃ text, encodeFloat value = .ok text ∧ cell = .of .float text := by
  obtain ⟨text, written, rfl⟩ := (Outcome.map_ok _ _ _).mp done
  exact ⟨text, written, rfl⟩

theorem joined_complex_atom (value : Complex) (cell : Cell)
    (done : joinedComplex value = .ok cell) :
    ∃ re im, encodeFloat value.re = .ok re ∧ encodeFloat value.im = .ok im ∧
      cell = .of .complex (Complex.join re im) := by
  obtain ⟨⟨re, im⟩, parts, made⟩ := (Outcome.bind_ok _ _ _).mp done
  obtain ⟨_, first, behind⟩ := (Outcome.bind_ok _ _ _).mp parts
  obtain ⟨_, second, same⟩ := (Outcome.bind_ok _ _ _).mp behind
  cases made
  cases same
  exact ⟨re, im, first, second, rfl⟩

theorem encode_atom (home : Nat) (ty : Ty) (atomic : ty.isAtomic = true) (value : ty.Value)
    (before : Depot) (cell : Cell) (after : Depot)
    (done : ty.encode home value before = .ok (cell, after)) :
    after = before ∧ ∃ atom, cell = .atom atom ∧ ty.Writes value atom := by
  cases ty with
  | nil =>
    cases done
    exact ⟨rfl, _, rfl, .nil⟩
  | bool =>
    cases done
    exact ⟨rfl, _, rfl, .bool value⟩
  | int type =>
    cases done
    exact ⟨rfl, _, rfl, .int type value⟩
  | single =>
    obtain ⟨made, encoded, same⟩ := (Outcome.map_ok _ _ _).mp done
    obtain ⟨text, written, rfl⟩ := encode_double_atom _ made encoded
    cases same
    exact ⟨rfl, _, rfl, .single value text written⟩
  | double =>
    obtain ⟨made, encoded, same⟩ := (Outcome.map_ok _ _ _).mp done
    obtain ⟨text, written, rfl⟩ := encode_double_atom _ made encoded
    cases same
    exact ⟨rfl, _, rfl, .double value text written⟩
  | complex =>
    obtain ⟨made, encoded, same⟩ := (Outcome.map_ok _ _ _).mp done
    obtain ⟨re, im, first, second, rfl⟩ := joined_complex_atom _ made encoded
    cases same
    exact ⟨rfl, _, rfl, .complex value re im first second⟩
  | string =>
    obtain ⟨text, written, same⟩ := (Outcome.map_ok _ _ _).mp done
    cases same
    exact ⟨rfl, _, rfl, .string value text written⟩
  | set => cases atomic
  | cell => cases atomic
  | option inner => cases atomic
  | list inner => cases atomic

end Ty
end ParamStore

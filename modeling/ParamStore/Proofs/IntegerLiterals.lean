import ParamStore.ParameterSet.Typed
import ParamStore.Proofs.EncodeGrowth
import ParamStore.Proofs.IntegerTexts
import ParamStore.Proofs.ReferenceLookup

set_option autoImplicit false

namespace ParamStore
namespace Number

inductive Integral : Text → Int → Prop where
  | plain (digits : Text) (present : digits ≠ []) (all : digits.allDigits = true) :
      Integral digits digits.toNat
  | plus (digits : Text) (present : digits ≠ []) (all : digits.allDigits = true) :
      Integral ('+' :: digits) digits.toNat
  | minus (digits : Text) (present : digits ≠ []) (all : digits.allDigits = true) :
      Integral ('-' :: digits) (-(digits.toNat : Int))

theorem integral_parts (literal : Text) (n : Int) (integral : Integral literal n) :
    ∃ sign digits : Text, literal = sign ++ digits ∧ (sign = [] ∨ sign = ['+'] ∨ sign = ['-']) ∧
      digits ≠ [] ∧ digits.allDigits = true ∧ n = signedValue (sign = ['-']) digits := by
  cases integral with
  | plain digits present all =>
    exact ⟨[], literal, rfl, .inl rfl, present, all, by simp [signedValue]⟩
  | plus digits present all =>
    exact ⟨['+'], digits, rfl, .inr (.inl rfl), present, all, by simp [signedValue]⟩
  | minus digits present all =>
    exact ⟨['-'], digits, rfl, .inr (.inr rfl), present, all, by simp [signedValue]⟩

theorem integral_spelled (literal : Text) (n : Int) (integral : Integral literal n) :
    Spelled literal := by
  obtain ⟨sign, digits, rfl, signed, present, all, _⟩ := integral_parts literal n integral
  exact .decimal sign digits signed ⟨digits, [], 0⟩
    ⟨present, all, [], [], by simp, .none, .none⟩

theorem of_literal_integral (literal : Text) (n : Int) (integral : Integral literal n) :
    ofLiteral literal = .ok (ofInt n) := by
  obtain ⟨sign, digits, rfl, signed, present, all, rfl⟩ := integral_parts literal n integral
  obtain ⟨first, rest, same⟩ := List.exists_cons_of_ne_nil present
  have digit := (Text.all_digits_iff digits).mp all first (by simp [same])
  have split := Text.split_signed sign digits (sign = ['-'])
    (by rcases signed with rfl | rfl | rfl <;> simp) first rest same digit
  have integer : isIntegerLiteral (sign ++ digits) = true := by
    simp [isIntegerLiteral, split, present, all]
  rw [ofLiteral, if_pos integer, split, ofInt]
  rw [← integer_text_value _ digits all]

end Number

namespace Document

theorem read_literal (options : ParseOptions) (key literal : Text) (number : Number)
    (valid : key.isKey = true) (free : isReserved key = false) (spelled : Number.Spelled literal)
    (made : Number.ofLiteral literal = .ok number) :
    ∃ position, read options (key ++ ':' :: ' ' :: literal) =
      .ok (empty.push ⟨some key, ⟨false, .number number⟩, position⟩ .none) := by
  have stops : Token.Stops [] := by
    intro c head
    cases head
  have last := TokenStream.reads_number literal [] [] spelled stops TokenStream.reads_nil
  rw [List.append_nil] at last
  have spaced := TokenStream.reads_mark .colon _ _ (TokenStream.reads_blank _ _ last)
  have reads := TokenStream.reads_word key _ _ valid (TokenStream.key_finite key free)
    (Token.stops_mark .colon _ (by decide)) spaced
  obtain ⟨stream, scanned, shown⟩ := reads .start
  obtain ⟨start, _, located, afterName⟩ := Parser.shown_cons _ _ _ shown
  obtain ⟨colon, _, rfl, afterColon⟩ := Parser.shown_cons _ _ _ afterName
  obtain ⟨position, rest, rfl, behind⟩ := Parser.shown_cons _ _ _ afterColon
  cases List.map_eq_nil_iff.mp behind
  obtain ⟨_, _, _, noBegin, noEnd⟩ := Parser.free_words key free
  refine ⟨start, (Outcome.bind_ok _ _ _).mpr ⟨stream, scanned, ?_⟩⟩
  rw [located, extend, if_neg (by simpa using noBegin), if_neg (by simpa using noEnd)]
  simp [Parser.binding, free, Parser.expression, made, extend]

theorem materialize_number (key : Text) (number : Number) (valid : key.isKey = true)
    (position : Position) (depot : Depot) (home : Nat) :
    (empty.push ⟨some key, ⟨false, .number number⟩, position⟩ .none).materialize depot home =
      (depot.setStore home (depot.store home),
        .ok (⟨home, Entries.empty.put key (.of (.ofNumber number.kind) number.text), none⟩,
          ⟨1, 0, 0, 0⟩)) := by
  have inserted : Entries.empty.insert (depot.store home) key
      (.of (.ofNumber number.kind) number.text) =
        .ok (Entries.empty.put key (.of (.ofNumber number.kind) number.text)) :=
    (Entries.insert_ok _ _ _ _ _).mpr ⟨valid, by rintro _ ⟨⟩, rfl⟩
  simp [materialize, push, empty, encodeBindings, Value.encode, Progress.start, inserted,
    Progress.countBinding, Except.map]

end Document

theorem Path.read_key (key : Text) (valid : key.isKey = true) : Path.read key = .ok ⟨key, []⟩ := by
  have read := Path.read_text ⟨key, []⟩ valid (by rintro _ ⟨⟩)
  simpa [Path.text] using read

theorem ParameterSet.get_entry (depot : Depot) (set : ParameterSet) (ty : Ty) (key : Text)
    (valid : key.isKey = true) (cell : Cell) (found : set.entries.lookup key = some cell) :
    set.get depot ty key = (ty.decode depot set.home cell).mapError (Error.within key) := by
  simp only [get, find, Path.read_key key valid, found, Store.follow, bind, Except.bind]

theorem materialize_integer (literal : Text) (n : Int) (integral : Number.Integral literal n) :
    Number.ofLiteral literal = .ok (Number.ofInt n) ∧
      (∀ (type : IntType) (inside : type.Holds n) (depot : Depot) (home : Nat),
        (Ty.int type).encode home ⟨n, inside⟩ depot =
          .ok (.of .integer (Number.ofInt n).text, depot)) ∧
      ∀ (key : Text), key.isKey = true → isReserved key = false →
        ∀ (options : ParseOptions) (depot : Depot) (home : Nat),
          ∃ after set, materializeSource options (key ++ ':' :: ' ' :: literal) depot home =
            (after, .ok set) ∧ ∀ type : IntType,
              (∀ inside : type.Holds n, set.get after (.int type) key = .ok ⟨n, inside⟩) ∧
              (¬ type.Holds n → ∃ error, set.get after (.int type) key = .error error ∧
                error.kind = .numberTooLarge) := by
  have number := Number.of_literal_integral literal n integral
  refine ⟨number, fun _ _ _ _ => rfl, fun key valid free options depot home => ?_⟩
  obtain ⟨position, read⟩ := Document.read_literal options key literal (Number.ofInt n) valid free
    (Number.integral_spelled literal n integral) number
  have made := Document.materialize_number key (Number.ofInt n) valid position depot home
  refine ⟨_, _, by simp only [materializeSource, read, made]; rfl, fun type => ?_⟩
  have found : (Entries.empty.put key (.of .integer (encodeInt n))).lookup key =
      some (.of .integer (encodeInt n)) := by
    rw [Entries.lookup_put, if_pos rfl]
  obtain ⟨fits, excess⟩ := decode_sized_encode type n
  constructor
  · intro inside
    rw [ParameterSet.get_entry _ _ (.int type) key valid _ found]
    change Except.mapError _ (decodeSized type (encodeInt n)) = _
    rw [fits inside]
    rfl
  · intro outside
    obtain ⟨target, failed⟩ := excess outside
    rw [ParameterSet.get_entry _ _ (.int type) key valid _ found]
    refine ⟨.tooLarge (encodeInt n) target, ?_, rfl⟩
    change Except.mapError _ (decodeSized type (encodeInt n)) = _
    rw [failed]
    rfl

def leastLiteral : Text := "-00170141183460469231731687303715884105728".toList

theorem materialize_integer_least :
    Number.Integral leastLiteral IntType.i128.least ∧
      ∃ after set, materializeSource .lenient (['k'] ++ ':' :: ' ' :: leastLiteral) ⟨[.empty]⟩ 0 =
          (after, .ok set) ∧
        set.get after (.int .i128) ['k'] = .ok ⟨_, IntType.i128.holds_least⟩ ∧
        ∃ error, set.get after (.int .u128) ['k'] = .error error ∧ error.kind = .numberTooLarge := by
  have integral : Number.Integral leastLiteral IntType.i128.least :=
    .minus "00170141183460469231731687303715884105728".toList (by decide) (by decide)
  obtain ⟨_, _, reads⟩ := materialize_integer leastLiteral IntType.i128.least integral
  obtain ⟨after, set, made, each⟩ := reads ['k'] rfl rfl .lenient ⟨[.empty]⟩ 0
  exact ⟨integral, after, set, made, (each .i128).1 IntType.i128.holds_least,
    (each .u128).2 (by decide +kernel)⟩

end ParamStore

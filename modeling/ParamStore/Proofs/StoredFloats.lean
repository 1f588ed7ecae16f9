import ParamStore.Proofs.FloatRoundTrip
import ParamStore.Proofs.NearestFloats
import ParamStore.Proofs.TypedValues

set_option autoImplicit false

namespace ParamStore
namespace Binary

def Is (x : Double) (n : Int) : Prop := x.isFinite = true ∧ x.exact = n

def Broken (x : Double) : Prop := x.isFinite = true ∧ ∀ n : Int, x.exact ≠ n

theorem exact_whole (x : Double) (integral : Format.double.one ∣ x.units) :
    x.exact = signedValue x.negative (Text.ofNat x.whole) := by
  have size : (x.units : ℚ) / Format.double.one = x.whole := by
    rw [div_eq_iff one_ne_zero]
    exact_mod_cast (Nat.div_mul_cancel integral).symm
  rw [exact, signedValue, Text.to_nat_of_nat]
  simp only [size]
  cases x.negative <;> simp

theorem exact_broken (x : Double) (broken : ¬ Format.double.one ∣ x.units) (n : Int) :
    x.exact ≠ n := by
  intro whole
  have size : (x.units : ℚ) / Format.double.one = n.natAbs := by
    rw [← abs_exact, whole, Nat.cast_natAbs, Int.cast_abs]
  rw [div_eq_iff one_ne_zero] at size
  exact broken ⟨n.natAbs, by rw [Nat.mul_comm]; exact_mod_cast size⟩

end Binary

namespace Text

theorem of_nat_length (n places : Nat) (some : 0 < places) (below : n < 10 ^ places) :
    (ofNat n).length ≤ places :=
  (Nat.length_toDigits_le_iff (by decide) some).mpr below

theorem of_int_length (n : Int) : (ofInt n).length ≤ n.natAbs + 2 := by
  have digits := of_nat_length n.natAbs (n.natAbs + 1) (Nat.succ_pos _)
    (Nat.lt_of_lt_of_le (Nat.lt_pow_self (by decide)) (Nat.pow_le_pow_right (by decide) (Nat.le_succ _)))
  rw [ofInt]
  split
  · rw [List.length_cons]
    omega
  · omega

end Text

namespace Digits

theorem positional_length (number : Digits) :
    number.positional.length ≤ number.digits.length + number.point.natAbs + 2 := by
  rw [positional]
  split
  · simp only [zeros, List.cons_append, List.length_cons, List.length_append, List.length_replicate]
    omega
  · dsimp only
    split
    · simp only [zeros, List.length_append, List.length_replicate]
      omega
    · simp only [List.length_append, List.length_cons, List.length_take, List.length_drop]
      omega

theorem scientific_length (number : Digits) :
    (number.scientific Text.ofInt).length ≤ number.digits.length + number.point.natAbs + 6 := by
  have power := Text.of_int_length (number.point - 1)
  have tail : (if number.digits.drop 1 = [] then [] else '.' :: number.digits.drop 1).length ≤
      number.digits.length + 1 := by
    split
    · exact Nat.zero_le _
    · rw [List.length_cons, List.length_drop]
      omega
  rw [scientific]
  simp only [List.length_append, List.length_cons, List.length_take]
  omega

theorem of_nat_lengths (count scale : Nat) :
    (ofNat count (-scale)).digits.length ≤ (Text.ofNat count).length ∧
      (ofNat count (-scale)).point.natAbs ≤ (Text.ofNat count).length + scale := by
  have kept : (dropZeros (Text.ofNat count)).length ≤ (Text.ofNat count).length := by
    rw [dropZeros, List.length_reverse]
    exact ((List.dropWhile_sublist _).length_le).trans_eq (List.length_reverse ..)
  have place : (ofNat count (-scale)).point = (Text.ofNat count).length + -(scale : Int) := rfl
  refine ⟨kept, ?_⟩
  rw [place]
  omega

end Digits

namespace Format

theorem count_lt (format : Format) (count : Nat)
    (finite : format.round count (Nat.pow 10 format.scale) < format.infinity) :
    count < 10 ^ (format.scale + (format.exponents + format.fractionBits)) := by
  refine Nat.lt_of_not_le fun large => ?_
  have most : Nat.pow 10 format.scale * 2 ^ (format.exponents + format.fractionBits) ≤
      count * format.one :=
    calc Nat.pow 10 format.scale * 2 ^ (format.exponents + format.fractionBits)
        ≤ 10 ^ format.scale * 10 ^ (format.exponents + format.fractionBits) :=
          Nat.mul_le_mul_left _ (Nat.pow_le_pow_left (by decide) _)
      _ = 10 ^ (format.scale + (format.exponents + format.fractionBits)) := (Nat.pow_add 10 _ _).symm
      _ ≤ count := large
      _ ≤ count * format.one := Nat.le_mul_of_pos_right _ format.one_pos
  rw [round_large format count _ (pow_ten_pos _) most] at finite
  exact Nat.lt_irrefl _ finite

end Format

namespace Binary

theorem shortest_length (x : Double) (finite : x.magnitude < Format.double.infinity) :
    (Format.double.shortest .away x.magnitude).digits.length ≤ 3173 ∧
      (Format.double.shortest .away x.magnitude).point.natAbs ≤ 4247 := by
  obtain ⟨count, same, back⟩ := Format.shortest_round Format.double .away x.magnitude finite
  rw [← back] at finite
  have digits := Text.of_nat_length count _ (by decide) (Format.double.count_lt count finite)
  have most : Format.double.scale + (Format.double.exponents + Format.double.fractionBits) = 3173 := rfl
  have scale : Format.double.scale = 1074 := rfl
  obtain ⟨kept, place⟩ := Digits.of_nat_lengths count Format.double.scale
  rw [same]
  omega

-- What the canonical text of a number is read as: the integer it is, no integer, or a number too large.
inductive ReadsAs (x : Double) : Text → Prop where
  | whole (n : Int) (is : x.Is n) : ReadsAs x (encodeInt n)
  | broken (text : Text) (cause : Mismatch) (broken : x.Broken)
      (refused : decodeMagnitude text = .error (.typeMismatch cause)) : ReadsAs x text
  | infinite (text : Text) (size : x.isFinite = false)
      (refused : decodeMagnitude text = .error (.tooLarge text .integer)) : ReadsAs x text

-- A decimal that rounds to a number with a fraction has a fraction itself, and is small.
theorem shown_broken (x : Double) (decimal : Decimal) (finite : x.magnitude < Format.double.infinity)
    (broken : ¬ Format.double.one ∣ x.units)
    (rounds : Format.double.round decimal.dividend decimal.divisor = x.magnitude) :
    (∀ n : Int, decimal.size ≠ n) ∧ decimal.size < 10 ^ 39 := by
  have fractional : ¬ Format.double.one ∣
      Format.double.units (Format.double.round decimal.dividend decimal.divisor) := by
    rwa [rounds]
  rw [← rounds] at finite
  have scale := decimal.size_divisor
  constructor
  · refine decimal.size_broken fun ⟨n, multiple⟩ => fractional ?_
    exact Format.double.units_round_whole _ _ n decimal.divisor_pos
      (by rw [multiple, Nat.mul_comm]) finite
  · by_contra large
    refine fractional (Format.double.units_round_large _ _ decimal.divisor_pos ?_ finite)
    have span : (Format.double.span : ℚ) ≤ 10 ^ 39 := by
      exact_mod_cast (show Format.double.span ≤ 10 ^ 39 by decide +kernel)
    have least : (Format.double.span : ℚ) * decimal.divisor ≤ decimal.dividend := by
      rw [← scale]
      exact mul_le_mul_of_nonneg_right (span.trans (not_lt.mp large)) (Nat.cast_nonneg _)
    exact_mod_cast least

theorem fraction_short (x : Double) (finite : x.magnitude < Format.double.infinity) :
    (signed x.negative (if x.magnitude < leastPlain then
      (Format.double.shortest .away x.magnitude).scientific Text.ofInt
      else (Format.double.shortest .away x.magnitude).positional)).length < 2 ^ 60 := by
  obtain ⟨digits, place⟩ := x.shortest_length finite
  have scientific := (Format.double.shortest .away x.magnitude).scientific_length
  have positional := (Format.double.shortest .away x.magnitude).positional_length
  have sign (text : Text) : (signed x.negative text).length ≤ text.length + 1 := by
    rw [signed]
    split
    · exact Nat.le_refl _
    · exact Nat.le_succ _
  refine Nat.lt_of_le_of_lt (sign _) ?_
  split <;> omega

theorem encode_reads_as (x : Double) (number : x.isNaN = false) :
    ∃ text, encodeFloat x = .ok text ∧ x.ReadsAs text := by
  obtain ⟨text, encoded, form⟩ := encode_form x number
  refine ⟨text, encoded, ?_⟩
  rw [encodeFloat, number] at encoded
  by_cases infinite : x.isInfinite = true
  · have size : x.isFinite = false := by
      have top : x.magnitude = Format.double.infinity := by simpa [isInfinite] using infinite
      simp [isFinite, top]
    simp only [infinite, Bool.false_eq_true, if_false, if_true, Except.ok.injEq] at encoded
    subst encoded
    refine .infinite _ size ?_
    cases x.negative <;> simp [decodeMagnitude, Text.splitSign]
  by_cases whole : x.isIntegral = true
  · obtain ⟨finite, integral⟩ : x.isFinite = true ∧ x.units % Format.double.one = 0 := by
      simpa [isIntegral] using whole
    simp only [infinite, whole, Bool.false_eq_true, if_false, if_true, Except.ok.injEq] at encoded
    rw [← encoded, integer_text_value x.negative _ (Text.of_nat_digits _)]
    exact .whole _ ⟨finite, x.exact_whole (Nat.dvd_of_mod_eq_zero integral)⟩
  · have atMost : x.magnitude ≤ Format.double.infinity := by simpa [isNaN] using number
    have notTop : x.magnitude ≠ Format.double.infinity := by simpa [isInfinite] using infinite
    have finite : x.magnitude < Format.double.infinity := by omega
    have size : x.isFinite = true := by simpa [isFinite] using finite
    have fractional : ¬ Format.double.one ∣ x.units := by
      intro integral
      simp [isIntegral, size, Nat.mod_eq_zero_of_dvd integral] at whole
    have short := x.fraction_short finite
    simp only [infinite, whole, Bool.false_eq_true, if_false, Except.ok.injEq] at encoded
    rw [encoded] at short
    have spelled : ∃ value, text.Spells value ∧ (∀ n : Int, value ≠ n) ∧ |value| < 10 ^ 39 := by
      cases form with
      | infinite top => exact absurd top notTop
      | zero none =>
        refine absurd ?_ fractional
        rw [units, none]
        exact Nat.dvd_zero _
      | decimal sign body number signed proper shown positive _ rounds =>
        obtain ⟨decimal, zeros, written, digits, point⟩ := shown
        have same : Format.double.round decimal.dividend decimal.divisor = x.magnitude :=
          (Format.round_cross _ _ _ _ _ decimal.divisor_pos number.divisor_pos
            (Digits.trailing_fraction number decimal zeros digits point)).trans rounds
        obtain ⟨none, small⟩ := x.shown_broken decimal finite fractional same
        refine ⟨decimal.signed x.negative, ⟨sign, body, x.negative, decimal, rfl,
          Decimal.sign_form sign x.negative signed, decimal.written_form body written, rfl⟩,
          decimal.signed_broken _ none, ?_⟩
        rwa [decimal.abs_signed]
    obtain ⟨value, spells, none, small⟩ := spelled
    rcases decode_magnitude_cases text short with
      ⟨negative, n, _, _, other⟩ | ⟨cause, refused, _⟩ | ⟨_, matched, _⟩
    · exact absurd (text.spells_unique _ _ spells other) (by exact_mod_cast none _)
    · exact .broken text cause ⟨size, fun n => x.exact_broken fractional n⟩ refused
    · exact absurd (.inr ⟨value, spells, none, small⟩) matched

theorem is_unique (x : Double) (n m : Int) (first : x.Is n) (second : x.Is m) : n = m := by
  exact_mod_cast first.2.symm.trans second.2

theorem broken_is (x : Double) (broken : x.Broken) (n : Int) : ¬ x.Is n :=
  fun is => broken.2 n is.2

end Binary

theorem decode_refused (type : IntType) (text : Text) (error : Error)
    (refused : decodeMagnitude text = .error error) :
    decodeInt text = .error error ∧ decodeSized type text = .error error := by
  have signed : decodeInt text = .error error := by rw [decodeInt, refused]; rfl
  have unsigned : decodeUInt text = .error error := by rw [decodeUInt, refused]; rfl
  refine ⟨signed, ?_⟩
  rw [decodeSized]
  split
  · rw [unsigned]
    rfl
  · rw [signed]
    rfl

structure ReadsWhole (x : Double) (type : IntType) (get : Except Error type.Number)
    (getOr : type.Number → Except Error type.Number) : Prop where
  exact : ∀ n : type.Number, get = .ok n ↔ x.Is n.1
  broken : (∃ error, get = .error error ∧ error.kind = .typeMismatch) ↔ x.Broken
  default : x.Broken → ∀ fallback, getOr fallback = .ok fallback
  excess : ¬ x.Broken → (∀ n, type.Holds n → ¬ x.Is n) → ∃ error, get = .error error ∧
    error.kind = .numberTooLarge ∧ ∀ fallback, getOr fallback = .error error

namespace Binary

section Whole

variable {type : IntType} {get : Except Error type.Number}
  {getOr : type.Number → Except Error type.Number}

theorem reads_number (x : Double) (n : Int) (is : x.Is n) (holds : type.Holds n)
    (read : get = .ok ⟨n, holds⟩) : ReadsWhole x type get getOr := by
  have unbroken : ¬ x.Broken := fun broken => x.broken_is broken n is
  refine ⟨fun m => ⟨fun same => ?_, fun other => ?_⟩, iff_of_false ?_ unbroken,
    fun broken => absurd broken unbroken, fun _ outside => absurd is (outside n holds)⟩
  · cases read.symm.trans same
    exact is
  · exact read.trans (congrArg _ (Subtype.ext (x.is_unique n m.1 is other)))
  · rintro ⟨error, failed, _⟩
    cases read.symm.trans failed

theorem reads_excess (x : Double) (unbroken : ¬ x.Broken)
    (outside : ∀ n, type.Holds n → ¬ x.Is n) (text : Text) (target : Target)
    (read : get = .error (.tooLarge text target)) (getsOr : ∀ fallback, getOr fallback = get) :
    ReadsWhole x type get getOr := by
  refine ⟨fun m => iff_of_false ?_ (outside m.1 m.2), iff_of_false ?_ unbroken,
    fun broken => absurd broken unbroken,
    fun _ _ => ⟨_, read, rfl, fun fallback => (getsOr fallback).trans read⟩⟩
  · rw [read]
    rintro ⟨⟩
  · rintro ⟨error, failed, kind⟩
    cases read.symm.trans failed
    cases kind

theorem reads_fraction (x : Double) (broken : x.Broken) (path : Text) (cause : Mismatch)
    (read : get = .error (.within path (.typeMismatch cause)))
    (getsOr : ∀ fallback, getOr fallback = .ok fallback) : ReadsWhole x type get getOr := by
  refine ⟨fun m => iff_of_false ?_ (x.broken_is broken m.1), iff_of_true ⟨_, read, rfl⟩ broken,
    fun _ => getsOr, fun whole => absurd broken whole⟩
  rw [read]
  rintro ⟨⟩

end Whole

theorem reads_as_whole (x : Double) (text path : Text) (reads : x.ReadsAs text) (type : IntType)
    (get : Except Error type.Number) (getOr : type.Number → Except Error type.Number)
    (gets : get = (decodeSized type text).mapError (Error.within path))
    (getsOr : ∀ fallback, getOr fallback =
      if Ty.isIntegral text then (decodeSized type text).mapError (Error.within path)
      else .ok fallback) :
    ReadsWhole x type get getOr := by
  cases reads with
  | whole n is =>
    have shape : Ty.isIntegral (encodeInt n) = true := by
      rw [Ty.isIntegral, decode_int_encode]
      by_cases holds : IntType.i128.Holds n
      · rw [if_pos holds]
      · rw [if_neg holds]
    simp only [shape, if_true, ← gets] at getsOr
    obtain ⟨fits, excess⟩ := decode_sized_encode type n
    by_cases holds : type.Holds n
    · refine x.reads_number n is holds ?_
      rw [gets, fits holds]
      rfl
    · obtain ⟨target, failed⟩ := excess holds
      refine x.reads_excess (fun broken => x.broken_is broken n is) (fun m inside other => ?_)
        (encodeInt n) target ?_ getsOr
      · exact holds (x.is_unique n m is other ▸ inside)
      · rw [gets, failed]
        rfl
  | broken _ cause broken refused =>
    obtain ⟨signed, failed⟩ := decode_refused type text _ refused
    have shape : Ty.isIntegral text = false := by rw [Ty.isIntegral, signed]
    simp only [shape, Bool.false_eq_true, if_false] at getsOr
    refine x.reads_fraction broken path cause ?_ getsOr
    rw [gets, failed]
    rfl
  | infinite _ size refused =>
    obtain ⟨signed, failed⟩ := decode_refused type text _ refused
    have shape : Ty.isIntegral text = true := by rw [Ty.isIntegral, signed]
    simp only [shape, if_true, ← gets] at getsOr
    refine x.reads_excess (fun broken => ?_) (fun n _ is => ?_) text .integer ?_ getsOr
    · simpa [size] using broken.1
    · simpa [size] using is.1
    · rw [gets, failed]
      rfl

end Binary

namespace ParameterSet

theorem found_float (depot : Depot) (set : ParameterSet) (path text : Text)
    (found : set.find (depot.store set.home) path = .ok (.of .float text)) (type : IntType) :
    set.get depot (.int type) path = (decodeSized type text).mapError (Error.within path) ∧
      ∀ fallback, set.getOr depot (.int type) path fallback =
        if Ty.isIntegral text then (decodeSized type text).mapError (Error.within path)
        else .ok fallback := by
  constructor
  · simp only [get, found, bind, Except.bind]
    rfl
  · intro fallback
    simp only [getOr, found]
    rfl

end ParameterSet

namespace Session

theorem put_float_reads (session : Session) (reachable : session.Reachable) (name : Text)
    (set : ParameterSet) (found : session.sets.lookup name = some set) (x : Double)
    (number : x.isNaN = false) (path : Text) (overwrite : Bool) (changed : ParameterSet)
    (after : Depot)
    (done : set.put session.depot .double path overwrite x = ((changed, after), .ok ()))
    (apart : Entries.Apart (set.involved session.depot .double path overwrite x)) (type : IntType) :
    ReadsWhole x type (changed.get after (.int type) path) (changed.getOr after (.int type) path) := by
  have sound := reachable_sound session reachable
  obtain ⟨cell, filled, parsed, put⟩ := ParameterSet.put_done session.depot sound.depot set
    (sound.sets name set found) .double x (by rintro _ ⟨⟩) path overwrite changed after done apart
  obtain ⟨text, encoded, reads⟩ := x.encode_reads_as number
  have stored : cell = .of .float text := by
    have made := put.encoded
    simp only [Ty.encode, Ty.encodeDouble, encoded, Except.map, Except.ok.injEq, Prod.mk.injEq] at made
    exact made.1.symm
  have here := ParameterSet.updates_here _ set changed path parsed cell put.read put.updates
  rw [← put.home, stored] at here
  obtain ⟨get, getOr⟩ := ParameterSet.found_float after changed path text here type
  exact x.reads_as_whole text path reads type _ _ get getOr

theorem put_float_reads_power :
    ∃ session set changed after, Session.Reachable session ∧ session.sets.lookup ['p'] = some set ∧
      set.put session.depot .double "a.b[0]".toList false (.ofBits64 0x43B0000000000000) =
        ((changed, after), .ok ()) ∧
      changed.get after (.int .i64) "a.b[0]".toList = .ok ⟨1152921504606846976, by decide⟩ ∧
      ∃ error, changed.get after (.int ⟨true, .w32⟩) "a.b[0]".toList = .error error ∧
        error.kind = .numberTooLarge := by
  let session := Session.empty.run [.openStore ['r'], .create ['p'] ['r']]
  have reachable : session.Reachable :=
    leads_run .empty .empty .refl _ (permits_plain _ _ (by simp [Operation.sets]))
  have checked : (session.sets.lookup ['p']).any (fun set => decide (
      (set.put session.depot .double "a.b[0]".toList false (.ofBits64 0x43B0000000000000)).2 = .ok () ∧
      Entries.Apart (set.involved session.depot .double "a.b[0]".toList false
        (.ofBits64 0x43B0000000000000)))) = true := by decide +kernel
  obtain ⟨set, found, decided⟩ := (Option.any_eq_true _ _).mp checked
  obtain ⟨succeeds, apart⟩ := of_decide_eq_true decided
  obtain ⟨⟨⟨changed, after⟩, outcome⟩, done⟩ : ∃ result,
      set.put session.depot .double "a.b[0]".toList false (.ofBits64 0x43B0000000000000) = result :=
    ⟨_, rfl⟩
  rw [done] at succeeds
  cases succeeds
  have reads := put_float_reads session reachable ['p'] set found (.ofBits64 0x43B0000000000000)
    (by decide +kernel) "a.b[0]".toList false changed after done apart
  have value : signedValue (Binary.ofBits64 0x43B0000000000000 : Double).negative
      (Text.ofNat (Binary.ofBits64 0x43B0000000000000 : Double).whole) = 1152921504606846976 := by
    decide +kernel
  have is : (Binary.ofBits64 0x43B0000000000000).Is 1152921504606846976 :=
    ⟨by decide +kernel, by rw [Binary.exact_whole _ (by decide +kernel), value]⟩
  have unbroken (broken : (Binary.ofBits64 0x43B0000000000000).Broken) : False :=
    Binary.broken_is _ broken _ is
  obtain ⟨error, failed, kind, _⟩ := (reads ⟨true, .w32⟩).excess unbroken fun n holds other => by
    rw [Binary.is_unique _ _ _ other is] at holds
    exact absurd holds (by decide)
  exact ⟨session, set, changed, after, reachable, found, done,
    ((reads .i64).exact ⟨1152921504606846976, by decide⟩).mpr is, error, failed, kind⟩

end Session
end ParamStore

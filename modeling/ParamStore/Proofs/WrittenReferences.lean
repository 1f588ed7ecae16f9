import ParamStore.Proofs.PathTexts
import ParamStore.Proofs.ReadingOn
import ParamStore.Proofs.SourceTokens

set_option autoImplicit false

namespace ParamStore
namespace Reference

structure Name where
  text : Text
  key : text.isKey = true
  free : isReserved text = false

structure Ordinal where
  digits : Text
  nonempty : digits ≠ []
  all : digits.allDigits = true
  bound : digits.toNat < Path.indexLimit

inductive WrittenStep where
  | key (name : Name)
  | index (place : Ordinal)

inductive WrittenVersion where
  | absent
  | last
  | number (place : Ordinal)

structure Written where
  name : Name
  version : WrittenVersion
  steps : List WrittenStep

namespace WrittenStep

def text : WrittenStep → Text
  | key name => '.' :: name.text
  | index place => '[' :: (place.digits ++ [']'])

def tokens : WrittenStep → List Token
  | key name => [.delimiter .dot, .word name.text]
  | index place => [.delimiter .openBracket, .number place.digits, .delimiter .closeBracket]

def segment : WrittenStep → Segment
  | key name => .key name.text
  | index place => .index place.digits.toNat

end WrittenStep

namespace WrittenVersion

def text : WrittenVersion → Text
  | absent => []
  | last => '(' :: (lastWord ++ [')'])
  | number place => '(' :: (place.digits ++ [')'])

def tokens : WrittenVersion → List Token
  | absent => []
  | last => [.delimiter .openParen, .word lastWord, .delimiter .closeParen]
  | number place => [.delimiter .openParen, .number place.digits, .delimiter .closeParen]

def place? : WrittenVersion → Option Nat
  | absent => none
  | last => none
  | number place => some place.digits.toNat

end WrittenVersion

namespace Written

def text (written : Written) : Text :=
  written.name.text ++ (written.version.text ++ written.steps.flatMap WrittenStep.text)

def behindName (written : Written) : List Token :=
  written.version.tokens ++ written.steps.flatMap WrittenStep.tokens

def segments (written : Written) : List Segment := written.steps.map WrittenStep.segment

def reference (written : Written) : Reference :=
  ⟨written.name.text, written.version.place?, written.segments, none⟩

@[simp] theorem reference_steps (written : Written) : written.reference.steps = written.segments := rfl

@[simp] theorem reference_place (written : Written) : written.reference.place = none := rfl

def path (written : Written) : Path := ⟨written.name.text, written.segments⟩

end Written

theorem Ordinal.spelled (place : Ordinal) : Number.Spelled place.digits :=
  .decimal [] place.digits (.inl rfl) ⟨place.digits, [], 0⟩
    ⟨place.nonempty, place.all, [], [], by simp, .none, .none⟩

end Reference

open Reference

namespace TokenStream

end TokenStream

namespace Parser

def Ends (more : List Token) : Prop := ∀ mark, more.head? ≠ some (.delimiter mark)

theorem steps_ended (stop : Position) (tokens : List Located) (ends : Ends (tokens.map Located.token)) :
    Parser.steps stop tokens = .ok ([], tokens) :=
  steps_done stop tokens (fun _ _ same => ends .dot (by rw [same]; rfl))
    fun _ _ same => ends .openBracket (by rw [same]; rfl)

theorem steps_written (stop : Position) (steps : List WrittenStep) (more : List Token)
    (ends : Ends more) (tokens : List Located)
    (shown : tokens.map Located.token = steps.flatMap WrittenStep.tokens ++ more) :
    ∃ left, Parser.steps stop tokens = .ok (steps.map WrittenStep.segment, left) ∧
      left.map Located.token = more := by
  induction steps generalizing tokens with
  | nil =>
    refine ⟨tokens, steps_ended stop tokens ?_, shown⟩
    rw [shown]
    exact ends
  | cons step rest ih =>
    rw [List.flatMap_cons, List.append_assoc] at shown
    cases step with
    | key name =>
      obtain ⟨_, _, rfl, afterDot⟩ := shown_cons _ _ _ shown
      obtain ⟨_, left, rfl, behind⟩ := shown_cons _ _ _ afterDot
      obtain ⟨last, read, same⟩ := ih left behind
      have free := name.free
      refine ⟨last, ?_, same⟩
      rw [Parser.steps]
      simp [Parser.name, free, read, WrittenStep.segment]
    | index place =>
      obtain ⟨_, _, rfl, afterBracket⟩ := shown_cons _ _ _ shown
      obtain ⟨_, _, rfl, afterPlace⟩ := shown_cons _ _ _ afterBracket
      obtain ⟨_, left, rfl, behind⟩ := shown_cons _ _ _ afterPlace
      obtain ⟨last, read, same⟩ := ih left behind
      refine ⟨last, ?_, same⟩
      rw [Parser.steps]
      simp [Parser.index, place.all, place.bound, read, WrittenStep.segment]

theorem version_unopened (tokens : List Located)
    (unopened : (tokens.map Located.token).head? ≠ some (.delimiter .openParen)) :
    Parser.version tokens = .ok (none, tokens) := by
  cases tokens with
  | nil => rfl
  | cons first rest => exact version_plain first rest fun same => unopened (congrArg some same)

theorem version_written (version : WrittenVersion) (steps : List WrittenStep) (more : List Token)
    (ends : Ends more) (tokens : List Located)
    (shown : tokens.map Located.token =
      version.tokens ++ (steps.flatMap WrittenStep.tokens ++ more)) :
    ∃ left, Parser.version tokens = .ok (version.place?, left) ∧
      left.map Located.token = steps.flatMap WrittenStep.tokens ++ more := by
  cases version with
  | absent =>
    refine ⟨tokens, version_unopened tokens ?_, shown⟩
    rw [shown]
    cases steps with
    | nil => exact ends .openParen
    | cons step rest => cases step <;> simp [WrittenVersion.tokens, WrittenStep.tokens]
  | last =>
    obtain ⟨_, _, rfl, afterParen⟩ := shown_cons _ _ _ shown
    obtain ⟨_, _, rfl, afterWord⟩ := shown_cons _ _ _ afterParen
    obtain ⟨_, left, rfl, behind⟩ := shown_cons _ _ _ afterWord
    exact ⟨left, rfl, behind⟩
  | number place =>
    obtain ⟨_, _, rfl, afterParen⟩ := shown_cons _ _ _ shown
    obtain ⟨_, _, rfl, afterPlace⟩ := shown_cons _ _ _ afterParen
    obtain ⟨_, left, rfl, behind⟩ := shown_cons _ _ _ afterPlace
    exact ⟨left, by simp [Parser.version, place.all, place.bound, WrittenVersion.place?], behind⟩

theorem reference_behind_name (stop : Position) (written : Written) (more : List Token)
    (ends : Ends more) (tokens : List Located)
    (shown : tokens.map Located.token = written.behindName ++ more) :
    ∃ left, left.map Located.token = more ∧ Parser.reference stop written.name.text tokens =
      .ok (⟨written.name.text, written.version.place?, written.segments, (external left).1⟩,
        (external left).2) := by
  rw [Written.behindName, List.append_assoc] at shown
  obtain ⟨behind, versioned, between⟩ :=
    version_written written.version written.steps more ends tokens shown
  obtain ⟨left, stepped, same⟩ := steps_written stop written.steps more ends behind between
  refine ⟨left, same, ?_⟩
  rw [Parser.reference, versioned]
  simp only [stepped]
  rfl

end Parser
end ParamStore

import ParamStore.Proofs.QuotedTexts
import ParamStore.Proofs.ValueCanonical

set_option autoImplicit false

namespace ParamStore
namespace Number

theorem decode_float_number (text : Text) (x : Double) (decoded : decodeFloat text = .ok x) :
    x.isNaN = false := by
  rw [decodeFloat] at decoded
  simp only at decoded
  split at decoded
  · cases decoded
    simp [Binary.isNaN, Binary.infinity]
  · split at decoded
    · cases decoded
    · split at decoded
      · cases decoded
      · cases decoded
        rw [Binary.ofDecimal]
        split
        · simp [Binary.isNaN, Binary.zero]
        · split
          · simp [Binary.isNaN, Binary.infinity]
          · simp [Binary.isNaN, Binary.nearest, Format.round_le_infinity]

theorem decode_float_written (text : Text) (x : Double) (decoded : decodeFloat text = .ok x) :
    ∃ number, ofFloat x = .ok number := by
  obtain ⟨shown, encoded, _⟩ := Binary.encode_form x (decode_float_number text x decoded)
  exact ⟨⟨.float, shown⟩, by rw [ofFloat, encoded]; rfl⟩

end Number

inductive Phrase where
  | number (literal : Text)
  | single (inside : Text)
  | double (inside : Text)
  | complex (re im : Text)
  | bool (value : Bool)
  | nil
  | array (items : List Phrase)
  | table (entries : List (Text × Phrase))

namespace Phrase

mutual
inductive Spells : List Token → Phrase → Prop where
  | number (literal : Text) : Spells [.number literal] (.number literal)
  | single (inside : Text) : Spells [.quoted ('\'' :: (inside ++ ['\'']))] (.single inside)
  | double (inside : Text) : Spells [.quoted ('"' :: (inside ++ ['"']))] (.double inside)
  | complex (re im : Text) :
      Spells [.delimiter .openParen, .number re, .delimiter .comma, .number im,
        .delimiter .closeParen] (.complex re im)
  | bool (value : Bool) : Spells [.word (encodeBool value)] (.bool value)
  | nil : Spells [.word nilWord] .nil
  | array (tokens : List Token) (items : List Phrase) (inside : SpellsItems tokens items) :
      Spells (.delimiter .openBracket :: (tokens ++ [.delimiter .closeBracket])) (.array items)
  | table (tokens : List Token) (entries : List (Text × Phrase))
      (inside : SpellsEntries tokens entries) :
      Spells (.delimiter .openBrace :: (tokens ++ [.delimiter .closeBrace])) (.table entries)
inductive SpellsItems : List Token → List Phrase → Prop where
  | nil : SpellsItems [] []
  | last (tokens : List Token) (item : Phrase) (spelled : Spells tokens item) :
      SpellsItems tokens [item]
  | more (tokens behind : List Token) (item : Phrase) (items : List Phrase)
      (spelled : Spells tokens item) (others : SpellsItems behind items) :
      SpellsItems (tokens ++ .delimiter .comma :: behind) (item :: items)
inductive SpellsEntries : List Token → List (Text × Phrase) → Prop where
  | nil : SpellsEntries [] []
  | cons (key : Text) (tokens comma behind : List Token) (item : Phrase)
      (entries : List (Text × Phrase)) (free : isReserved key = false)
      (spelled : Spells tokens item) (separated : comma = [] ∨ comma = [.delimiter .comma])
      (others : SpellsEntries behind entries) :
      SpellsEntries (.word key :: .delimiter .colon :: (tokens ++ (comma ++ behind)))
        ((key, item) :: entries)
end

mutual
def Accepted : Phrase → Prop
  | .number literal => ∃ number, Number.ofLiteral literal = .ok number
  | .double inside => ∃ content, Text.Escaped inside content
  | .complex re im => (∃ x, decodeFloat re = .ok x) ∧ ∃ y, decodeFloat im = .ok y
  | .single _ | .bool _ | .nil => True
  | .array items => ItemsAccepted items
  | .table entries => EntriesAccepted entries
def ItemsAccepted : List Phrase → Prop
  | [] => True
  | item :: rest => item.Accepted ∧ ItemsAccepted rest
def EntriesAccepted : List (Text × Phrase) → Prop
  | [] => True
  | (_, item) :: rest => item.Accepted ∧ EntriesAccepted rest
end

mutual
-- Of several entries under one key the last counts.
inductive Means : Phrase → Value → Prop where
  | number (literal : Text) (number : Number) (made : Number.ofLiteral literal = .ok number) :
      Means (.number literal) (.number number)
  | single (inside : Text) : Means (.single inside) (.string inside.canonical)
  | double (inside content : Text) (escaped : Text.Escaped inside content) :
      Means (.double inside) (.string content.canonical)
  | complex (re im : Text) (x y : Double) (first second : Number)
      (reRead : decodeFloat re = .ok x) (imRead : decodeFloat im = .ok y)
      (reMade : Number.ofFloat x = .ok first) (imMade : Number.ofFloat y = .ok second) :
      Means (.complex re im) (.complex first second)
  | bool (value : Bool) : Means (.bool value) (.bool value)
  | nil : Means .nil .nil
  | array (items : List Phrase) (values : List (Flagged Value)) (each : MeansItems items values) :
      Means (.array items) (.sequence values)
  | table (entries : List (Text × Phrase)) (found : List (Text × Flagged Value))
      (made : Keyed (Flagged Value)) (each : MeansEntries entries found) (ordered : made.Ordered)
      (last : ∀ key, made.lookup key = Keyed.lookup key found.reverse) :
      Means (.table entries) (.table made)
inductive MeansItems : List Phrase → List (Flagged Value) → Prop where
  | nil : MeansItems [] []
  | cons (item : Phrase) (items : List Phrase) (value : Value) (values : List (Flagged Value))
      (first : Means item value) (others : MeansItems items values) :
      MeansItems (item :: items) (⟨false, value⟩ :: values)
inductive MeansEntries : List (Text × Phrase) → List (Text × Flagged Value) → Prop where
  | nil : MeansEntries [] []
  | cons (key : Text) (item : Phrase) (entries : List (Text × Phrase)) (value : Value)
      (found : List (Text × Flagged Value)) (first : Means item value)
      (others : MeansEntries entries found) :
      MeansEntries ((key, item) :: entries) ((key, ⟨false, value⟩) :: found)
end

mutual
theorem accepted_means (phrase : Phrase) (accepted : phrase.Accepted) :
    ∃ value, phrase.Means value := by
  match phrase with
  | .number literal =>
    obtain ⟨number, made⟩ := accepted
    exact ⟨_, .number literal number made⟩
  | .single inside => exact ⟨_, .single inside⟩
  | .double inside =>
    obtain ⟨content, escaped⟩ := accepted
    exact ⟨_, .double inside content escaped⟩
  | .complex re im =>
    obtain ⟨⟨x, reRead⟩, y, imRead⟩ := accepted
    obtain ⟨first, reMade⟩ := Number.decode_float_written re x reRead
    obtain ⟨second, imMade⟩ := Number.decode_float_written im y imRead
    exact ⟨_, .complex re im x y first second reRead imRead reMade imMade⟩
  | .bool value => exact ⟨_, .bool value⟩
  | .nil => exact ⟨_, .nil⟩
  | .array items =>
    obtain ⟨values, each⟩ := items_accepted_mean items accepted
    exact ⟨_, .array items values each⟩
  | .table entries =>
    obtain ⟨found, each⟩ := entries_accepted_mean entries accepted
    exact ⟨_, .table entries found _ each (Keyed.of_list_ordered found) (Keyed.of_list_lookup found)⟩
theorem items_accepted_mean (items : List Phrase) (accepted : ItemsAccepted items) :
    ∃ values, MeansItems items values := by
  match items with
  | [] => exact ⟨_, .nil⟩
  | item :: rest =>
    obtain ⟨value, first⟩ := accepted_means item accepted.1
    obtain ⟨values, others⟩ := items_accepted_mean rest accepted.2
    exact ⟨_, .cons item rest value values first others⟩
theorem entries_accepted_mean (entries : List (Text × Phrase)) (accepted : EntriesAccepted entries) :
    ∃ found, MeansEntries entries found := by
  match entries with
  | [] => exact ⟨_, .nil⟩
  | (key, item) :: rest =>
    obtain ⟨value, first⟩ := accepted_means item accepted.1
    obtain ⟨found, others⟩ := entries_accepted_mean rest accepted.2
    exact ⟨_, .cons key item rest value found first others⟩
end

mutual
theorem means_accepted (phrase : Phrase) (value : Value) (means : phrase.Means value) :
    phrase.Accepted := by
  match means with
  | .number literal found made => exact ⟨found, made⟩
  | .single inside => trivial
  | .double inside content escaped => exact ⟨content, escaped⟩
  | .complex re im x y first second reRead imRead _ _ => exact ⟨⟨x, reRead⟩, y, imRead⟩
  | .bool value => trivial
  | .nil => trivial
  | .array items values each => exact items_mean_accepted items values each
  | .table entries found made each _ _ => exact entries_mean_accepted entries found each
theorem items_mean_accepted (items : List Phrase) (values : List (Flagged Value))
    (means : MeansItems items values) : ItemsAccepted items := by
  match means with
  | .nil => trivial
  | .cons item items value values first others =>
    exact ⟨means_accepted item value first, items_mean_accepted items values others⟩
theorem entries_mean_accepted (entries : List (Text × Phrase))
    (found : List (Text × Flagged Value)) (means : MeansEntries entries found) :
    EntriesAccepted entries := by
  match means with
  | .nil => trivial
  | .cons key item entries value found first others =>
    exact ⟨means_accepted item value first, entries_mean_accepted entries found others⟩
end

end Phrase
end ParamStore

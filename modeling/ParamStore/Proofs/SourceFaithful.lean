import ParamStore.Proofs.SourceDerives
import ParamStore.Proofs.Outcome

set_option autoImplicit false

namespace ParamStore
namespace TokenStream

theorem scan_words (position : Position) (source : Text) (stream : TokenStream)
    (scanned : scan position source = .ok stream) : Parser.Words stream.tokens := by
  intro located member word same
  refine scan_all (fun token => ∀ word, token = .word word → word.isKey = true) ?_ position source
    stream scanned located member word same
  rintro first rest token left found word rfl
  exact Token.read_word first rest left word found

end TokenStream

namespace Value

theorem read_derives (source : Text) (value : Value) (done : read source = .ok value) :
    ∃ stream notes, TokenStream.ofSource source = .ok stream ∧
      Parser.Derives ⟨.empty, true, stream.stop⟩ stream.tokens value notes [] := by
  obtain ⟨stream, scanned, parsed⟩ := (Outcome.bind_ok _ _ _).mp done
  obtain ⟨step, found, ended⟩ := (Outcome.bind_ok _ _ _).mp parsed
  have derived := Parser.derives_of_expression _ stream.tokens step found
  obtain ⟨made, notes, rest, shorter⟩ := step
  cases rest with
  | nil =>
    cases ended
    exact ⟨stream, notes, scanned, derived⟩
  | cons first behind => exact absurd ended (Parser.unexpected_ne _ _ _ _)

theorem derives_read (source : Text) (value : Value) (notes : Notes) (stream : TokenStream)
    (scanned : TokenStream.ofSource source = .ok stream)
    (derived : Parser.Derives ⟨.empty, true, stream.stop⟩ stream.tokens value notes []) :
    read source = .ok value := by
  obtain ⟨shorter, found⟩ := Parser.expression_finds _ stream.tokens [] value notes derived
  refine (Outcome.bind_ok _ _ _).mpr ⟨stream, scanned, ?_⟩
  exact (Outcome.bind_ok _ _ _).mpr ⟨_, found, rfl⟩

theorem empty_canonical : Document.empty.Canonical := by
  intro binding member
  cases member

theorem read_canonical (source : Text) (value : Value) (done : read source = .ok value) :
    value.Canonical := by
  obtain ⟨stream, notes, scanned, derived⟩ := read_derives source value done
  have words := TokenStream.scan_words .start source stream scanned
  exact (Parser.derives_canonical _ empty_canonical stream.tokens [] words value notes derived).1

theorem read_source (value other : Value) (canonical : value.Canonical) :
    read value.source = .ok other ↔ value.Rereads other := by
  have stops : Token.Stops [] := by
    intro c head
    cases head
  have reads := TokenStream.source_reads value canonical [] [] stops TokenStream.reads_nil
  rw [List.append_nil] at reads
  obtain ⟨stream, scanned, shown⟩ := reads .start
  constructor
  · intro done
    obtain ⟨again, notes, rescanned, derived⟩ := read_derives value.source other done
    cases scanned.symm.trans rescanned
    exact (Parser.derives_value _ value other canonical _ [] [] notes shown derived).1
  · intro again
    obtain ⟨left, derived, behind⟩ :=
      Parser.value_derives ⟨.empty, true, stream.stop⟩ value other canonical again _ [] shown
    cases List.map_eq_nil_iff.mp behind
    exact derives_read value.source other .none stream scanned derived

theorem read_number_source (literal : Text) (number other : Number)
    (made : Number.ofLiteral literal = .ok number) (again : Number.ofLiteral number.text = .ok other) :
    read (Value.number number).source = .ok (.number other) := by
  have canonical : (Value.number number).Canonical := ⟨literal, made⟩
  exact (read_source _ _ canonical).mpr (.number number other again)

theorem read_source_iff (source : Text) (value : Value) (done : read source = .ok value) :
    (∀ other, read value.source = .ok other ↔ value.Rereads other) ∧
      (read value.source = .ok value ↔ value.KeepsKinds) := by
  have canonical := read_canonical source value done
  refine ⟨fun other => read_source value other canonical, ?_⟩
  rw [read_source value value canonical]
  exact rereads_self_iff value canonical

def mixedSource : Text := "\x7bs: 'a b', n: [7, \x7b\x7d]\x7d".toList

def mixed : Value :=
  .table [(['n'], ⟨false, .sequence [⟨false, .number ⟨.integer, ['+', '7']⟩⟩, ⟨false, .table []⟩]⟩),
    (['s'], ⟨false, .string ['"', 'a', ' ', 'b', '"']⟩)]

theorem read_source_iff_mixed :
    read mixedSource = .ok mixed ∧ mixed.KeepsKinds ∧ read mixed.source = .ok mixed := by
  have done : read mixedSource = .ok mixed := by decide +kernel
  have keeps : mixed.KeepsKinds := ⟨⟨⟨by decide, by decide⟩, trivial, trivial⟩, trivial, trivial⟩
  exact ⟨done, keeps, (read_source_iff mixedSource mixed done).2.mpr keeps⟩

-- Whole floats below a million come back as integers, and integers from a million on as floats.
theorem source_changes_kind :
    (read ['7', '.', '0'] = .ok (.number ⟨.float, ['+', '7']⟩) ∧
      read (Value.number ⟨.float, ['+', '7']⟩).source = .ok (.number ⟨.integer, ['+', '7']⟩)) ∧
    ∃ million : Number, million.kind = .integer ∧
      read "1000000".toList = .ok (.number million) ∧
      read (Value.number million).source = .ok (.number ⟨.float, million.text⟩) := by
  have seven : Number.ofLiteral ['7', '.', '0'] = .ok ⟨.float, ['+', '7']⟩ := by decide +kernel
  have large : Number.ofLiteral "1000000".toList = .ok ⟨.integer, "+1.000000e+06".toList⟩ := by
    decide +kernel
  have scanned : TokenStream.ofSource ['7', '.', '0'] =
      .ok ⟨[⟨.number ['7', '.', '0'], ⟨1, 1⟩⟩], ⟨1, 4⟩⟩ := by decide +kernel
  refine ⟨⟨?_, ?_⟩, ⟨.integer, "+1.000000e+06".toList⟩, rfl, ?_, ?_⟩
  · exact derives_read _ _ .none _ scanned (.number _ _ [] _ seven)
  · exact read_number_source _ _ _ seven (by decide +kernel)
  · decide +kernel
  · exact read_number_source _ _ _ large (by decide +kernel)

end Value
end ParamStore

import ParamStore.Proofs.EncodeCells
import ParamStore.Proofs.ReadingOn
import ParamStore.Proofs.SourceFaithful

set_option autoImplicit false

namespace ParamStore
namespace Value

mutual
theorem canonical_plain (value : Value) (canonical : value.Canonical) : value.Plain := by
  cases value with
  | sequence items => exact items_canonical_plain items canonical
  | table entries => exact ⟨canonical.1, entries_canonical_plain entries canonical.2⟩
  | _ => trivial
theorem items_canonical_plain (items : List (Flagged Value)) (canonical : ItemsCanonical items) :
    ItemsPlain items := by
  match items with
  | [] => trivial
  | ⟨_, value⟩ :: tail =>
    obtain ⟨unflagged, inside, rest⟩ := canonical
    exact ⟨unflagged, canonical_plain value inside, items_canonical_plain tail rest⟩
theorem entries_canonical_plain (entries : List (Text × Flagged Value))
    (canonical : EntriesCanonical entries) : EntriesPlain entries := by
  match entries with
  | [] => trivial
  | (_, ⟨_, value⟩) :: tail =>
    obtain ⟨named, unflagged, inside, rest⟩ := canonical
    exact ⟨named.1, unflagged, canonical_plain value inside, entries_canonical_plain tail rest⟩
end

end Value

def Binding.Sound (binding : Binding) : Prop :=
  binding.item.value.Canonical ∧ ∀ name, binding.name = some name → name.isKey = true

def Document.Sound (document : Document) : Prop := ∀ binding ∈ document.bindings, binding.Sound

namespace Parser

theorem binding_sound (scope : Scope) (known : scope.document.Canonical) (inProlog : Bool)
    (tokens : List Located) (words : Words tokens) (step : Step Binding tokens)
    (done : binding scope inProlog tokens = .ok step) :
    step.value.Sound ∧ step.rest <:+ tokens := by
  rcases binding_cases _ _ tokens step done with
    ⟨word, position, colon, rest, value, rfl, _, item, made⟩ | ⟨first, rest, value, _, _, item, made⟩
  · have far : rest <:+ ⟨.word word, position⟩ :: ⟨.delimiter .colon, colon⟩ :: rest := ⟨[_, _], rfl⟩
    obtain ⟨canonical, suffix⟩ := derives_canonical scope known rest step.rest
      (words_suffix _ rest words far) value step.notes item
    refine ⟨?_, suffix.trans far⟩
    rw [made]
    refine ⟨canonical, fun name named => ?_⟩
    rw [← Option.some.inj named]
    exact words _ (List.mem_cons_self ..) word rfl
  · obtain ⟨canonical, suffix⟩ := derives_canonical scope known tokens step.rest words value
      step.notes item
    refine ⟨?_, suffix⟩
    rw [made]
    exact ⟨canonical, by rintro _ ⟨⟩⟩

end Parser

namespace Document

theorem sound_canonical (document : Document) (sound : document.Sound) : document.Canonical :=
  fun binding member => (sound binding member).1

theorem push_sound (document : Document) (binding : Binding) (notes : Notes)
    (sound : document.Sound) (fresh : binding.Sound) : (document.push binding notes).Sound := by
  intro other member
  rcases List.mem_append.mp member with old | new
  · exact sound other old
  · exact List.mem_singleton.mp new ▸ fresh

theorem extend_sound (options : ParseOptions) (stop : Position) (prolog : Option Position)
    (document last : Document) (tokens : List Located) (words : Parser.Words tokens)
    (sound : document.Sound) (done : extend options stop prolog document tokens = .ok last) :
    last.Sound := by
  fun_induction extend options stop prolog document tokens with
  | case1 =>
    cases done
    exact sound
  | case5 _ _ _ _ _ _ ih =>
    exact ih (Parser.words_suffix _ _ words (List.suffix_cons _ _)) sound done
  | case7 _ _ _ _ _ _ ih =>
    exact ih (Parser.words_suffix _ _ words (List.suffix_cons _ _)) sound done
  | case9 _ document _ _ _ _ _ binding notes left _ bound ih =>
    obtain ⟨fresh, suffix⟩ :=
      Parser.binding_sound _ (sound_canonical document sound) _ _ words _ bound
    exact ih (Parser.words_suffix _ left words suffix) (push_sound document binding notes sound fresh)
      done
  | _ => cases done

theorem read_sound (options : ParseOptions) (source : Text) (document : Document)
    (done : read options source = .ok document) : document.Sound := by
  obtain ⟨stream, scanned, extended⟩ := (Outcome.bind_ok _ _ _).mp done
  refine extend_sound options stream.stop none empty document stream.tokens
    (TokenStream.scan_words .start source stream scanned) ?_ extended
  rintro _ ⟨⟩

end Document
end ParamStore

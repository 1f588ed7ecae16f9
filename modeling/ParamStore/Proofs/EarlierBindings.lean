import ParamStore.Proofs.ReadingOn

set_option autoImplicit false

namespace ParamStore
namespace Document

structure Starts (early late : Document) : Prop where
  bindings : early.bindings <+: late.bindings
  diagnostics : early.diagnostics <+: late.diagnostics
  deferred : early.deferred <+: late.deferred

theorem starts_refl (document : Document) : document.Starts document :=
  ⟨List.prefix_refl _, List.prefix_refl _, List.prefix_refl _⟩

theorem push_starts (document late : Document) (binding : Binding) (notes : Notes)
    (starts : (document.push binding notes).Starts late) : document.Starts late :=
  ⟨(List.prefix_append _ _).trans starts.bindings, (List.prefix_append _ _).trans starts.diagnostics,
    (List.prefix_append _ _).trans starts.deferred⟩

theorem extend_starts (options : ParseOptions) (stop : Position) (prolog : Option Position)
    (document last : Document) (tokens : List Located)
    (done : extend options stop prolog document tokens = .ok last) : document.Starts last := by
  fun_induction extend options stop prolog document tokens with
  | case1 document =>
    cases done
    exact starts_refl _
  | case5 _ _ _ _ _ _ ih => exact ih done
  | case7 _ _ _ _ _ _ ih => exact ih done
  | case9 _ document _ _ _ _ _ binding notes _ _ _ ih =>
    exact push_starts document last binding notes (ih done)
  | _ => cases done

theorem read_behind (options : ParseOptions) (source more : Text) (early : Document)
    (word : Text) (tokens : List Token) (done : read options source = .ok early)
    (reads : TokenStream.Reads more (.word word :: tokens)) :
    ∃ behind : TokenStream, behind.tokens.map Located.token = .word word :: tokens ∧
      read options (source ++ '\n' :: more) =
        extend options behind.stop none early behind.tokens := by
  obtain ⟨stream, scanned, extended⟩ := (Outcome.bind_ok _ _ _).mp done
  obtain ⟨behind, scannedAll, same⟩ := TokenStream.of_source_break source more stream _ scanned reads
  refine ⟨behind, same, ?_⟩
  have fresh : Parser.Fresh behind.tokens := by
    obtain ⟨position, rest, tokensSame, _⟩ := Parser.shown_cons _ _ _ same
    rw [tokensSame]
    exact .word word position rest
  rw [read, scannedAll]
  exact extend_behind options stream.stop behind.stop none empty early stream.tokens behind.tokens
    fresh extended

inductive Opens : List Token → Prop where
  | binding (word : Text) (rest : List Token) : Opens (.word word :: .delimiter .colon :: rest)
  | prolog (rest : List Token) : Opens (.word beginProlog :: rest)

theorem opens_word (tokens : List Token) (opens : Opens tokens) :
    ∃ word rest, tokens = .word word :: rest := by
  cases opens <;> exact ⟨_, _, rfl⟩

theorem read_starts (options : ParseOptions) (source more : Text) (early late : Document)
    (stream : TokenStream) (before : read options source = .ok early)
    (scanned : TokenStream.ofSource more = .ok stream)
    (opens : Opens (stream.tokens.map Located.token))
    (after : read options (source ++ '\n' :: more) = .ok late) : early.Starts late := by
  have reads := TokenStream.scan_reads .start more stream scanned
  obtain ⟨word, rest, same⟩ := opens_word _ opens
  rw [same] at reads
  obtain ⟨behind, _, extended⟩ := read_behind options source more early word rest before reads
  rw [extended] at after
  exact extend_starts options behind.stop none early late behind.tokens after

def unresolved : Document := ⟨[⟨some ['a'], ⟨false, .nil⟩, ⟨1, 1⟩⟩], [⟨⟨1, 4⟩, ['b']⟩], []⟩

theorem read_starts_unresolved :
    ∃ stream late, read .lenient "a: b".toList = .ok unresolved ∧
      TokenStream.ofSource "b: nil".toList = .ok stream ∧
      Opens (stream.tokens.map Located.token) ∧
      read .lenient ("a: b".toList ++ '\n' :: "b: nil".toList) = .ok late ∧
      unresolved.Starts late ∧ late.lookup ['b'] = some ⟨false, .nil⟩ := by
  have before : read .lenient "a: b".toList = .ok unresolved := by decide +kernel
  have scanned : TokenStream.ofSource "b: nil".toList =
      .ok ⟨[⟨.word ['b'], ⟨1, 1⟩⟩, ⟨.delimiter .colon, ⟨1, 2⟩⟩, ⟨.word nilWord, ⟨1, 4⟩⟩], ⟨1, 7⟩⟩ := by
    decide +kernel
  have opens : Opens [.word ['b'], .delimiter .colon, .word nilWord] := .binding ['b'] _
  have after : read .lenient ("a: b".toList ++ '\n' :: "b: nil".toList) =
      .ok (unresolved.push ⟨some ['b'], ⟨false, .nil⟩, ⟨2, 1⟩⟩ .none) := by decide +kernel
  exact ⟨_, _, before, scanned, opens, after,
    read_starts .lenient _ _ _ _ _ before scanned opens after, rfl⟩

end Document
end ParamStore

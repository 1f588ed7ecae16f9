import ParamStore.Document.Reference

set_option autoImplicit false

namespace ParamStore

structure ParseOptions where
  strictReferences : Bool
  allowProlog : Bool
deriving DecidableEq, Repr

namespace ParseOptions

def lenient : ParseOptions := ⟨false, true⟩
def strict : ParseOptions := ⟨true, true⟩

end ParseOptions

def beginProlog : Text := ['B', 'E', 'G', 'I', 'N', '_', 'P', 'R', 'O', 'L', 'O', 'G']
def endProlog : Text := ['E', 'N', 'D', '_', 'P', 'R', 'O', 'L', 'O', 'G']
def lastWord : Text := ['l', 'a', 's', 't']

def reservedWords : List Text :=
  [nilWord, trueWord, falseWord, Text.infinity, beginProlog, endProlog]

def isReserved (word : Text) : Bool := reservedWords.contains word

namespace Parser

structure Step (α : Type) (tokens : List Located) where
  value : α
  notes : Notes
  rest : List Located
  shorter : rest.length < tokens.length

def unexpected {α : Type} (stop : Position) (wanted : Expectation) : List Located → Except Error α
  | [] => .error (.parse stop (.unexpected wanted none))
  | ⟨token, position⟩ :: _ => .error (.parse position (.unexpected wanted (some token)))

def name : Located → Except Error Text
  | ⟨.word word, position⟩ =>
    if isReserved word then .error (.parse position (.reservedName word)) else .ok word
  | ⟨token, position⟩ => .error (.parse position (.unexpected .name (some token)))

def version (tokens : List Located) : Except Error (Option Nat × List Located) :=
  match tokens with
  | ⟨.delimiter .openParen, position⟩ :: ⟨inner, _⟩ :: ⟨.delimiter .closeParen, _⟩ :: rest =>
    match inner with
    | .word word => if word = lastWord then .ok (none, rest) else .ok (none, tokens)
    | .number digits =>
      if digits.allDigits then
        if digits.toNat < Path.indexLimit then .ok (some digits.toNat, rest)
        else .error (.parse position (.versionTooLarge digits))
      else .ok (none, tokens)
    | _ => .ok (none, tokens)
  | _ => .ok (none, tokens)

def index : Located → Except Error Nat
  | ⟨.number digits, position⟩ =>
    if digits.allDigits then
      if digits.toNat < Path.indexLimit then .ok digits.toNat
      else .error (.parse position (.indexTooLarge digits))
    else .error (.parse position (.unexpected .index (some (.number digits))))
  | ⟨token, position⟩ => .error (.parse position (.unexpected .index (some token)))

def steps (stop : Position) : List Located → Except Error (List Segment × List Located)
  | ⟨.delimiter .dot, _⟩ :: [] => unexpected stop .name []
  | ⟨.delimiter .dot, _⟩ :: first :: rest =>
    match name first with
    | .error error => .error error
    | .ok key =>
      match steps stop rest with
      | .error error => .error error
      | .ok (more, left) => .ok (.key key :: more, left)
  | ⟨.delimiter .openBracket, _⟩ :: [] => unexpected stop .index []
  | ⟨.delimiter .openBracket, _⟩ :: first :: rest =>
    match index first with
    | .error error => .error error
    | .ok place =>
      match rest with
      | ⟨.delimiter .closeBracket, _⟩ :: behind =>
        match steps stop behind with
        | .error error => .error error
        | .ok (more, left) => .ok (.index place :: more, left)
      | other => unexpected stop (.delimiter .closeBracket) other
  | tokens => .ok ([], tokens)

def external : List Located → Option External × List Located
  | ⟨.deferred place, _⟩ :: rest => (some place, rest)
  | tokens => (none, tokens)

def reference (stop : Position) (name : Text) (tokens : List Located) :
    Except Error (Reference × List Located) :=
  match version tokens with
  | .error error => .error error
  | .ok (number, behind) =>
    match steps stop behind with
    | .error error => .error error
    | .ok (inwards, left) =>
      .ok (⟨name, number, inwards, (external left).1⟩, (external left).2)

def part (stop : Position) : List Located → Except Error Double
  | ⟨.number literal, position⟩ :: _ =>
    match decodeFloat literal with
    | .ok value => .ok value
    | .error cause => .error (.badNumber position literal cause)
  | tokens => unexpected stop .number tokens

def expect (stop : Position) (mark : Delimiter) : List Located → Except Error (List Located)
  | [] => unexpected stop (.delimiter mark) []
  | ⟨token, position⟩ :: rest =>
    if token = .delimiter mark then .ok rest
    else unexpected stop (.delimiter mark) (⟨token, position⟩ :: rest)

def complex (stop opened : Position) (tokens : List Located) :
    Except Error (Value × List Located) := do
  let re ← part stop tokens
  let behind ← expect stop .comma tokens.tail
  let im ← part stop behind
  let rest ← expect stop .closeParen behind.tail
  match Value.ofComplex ⟨re, im⟩ with
  | .ok value => .ok (value, rest)
  | .error cause => .error (.badLiteral opened cause)

def skipComma : List Located → List Located
  | ⟨.delimiter .comma, _⟩ :: rest => rest
  | tokens => tokens

theorem version_length (tokens rest : List Located) (number : Option Nat)
    (read : version tokens = .ok (number, rest)) : rest.length ≤ tokens.length := by
  unfold version at read
  split at read
  · split at read
    · split at read <;> cases read <;> simp only [List.length_cons] <;> omega
    · split at read
      · split at read <;> cases read
        simp only [List.length_cons]
        omega
      · cases read
        exact Nat.le_refl _
    · cases read
      exact Nat.le_refl _
  · cases read
    exact Nat.le_refl _

theorem unexpected_ne {α : Type} (stop : Position) (wanted : Expectation) (tokens : List Located)
    (result : α) : unexpected stop wanted tokens ≠ .ok result := by
  cases tokens <;> simp [unexpected]

theorem steps_length (stop : Position) (tokens rest : List Located) (inwards : List Segment)
    (read : steps stop tokens = .ok (inwards, rest)) : rest.length ≤ tokens.length := by
  fun_induction steps stop tokens generalizing inwards rest with
  | case1 => exact absurd read (unexpected_ne _ _ _ _)
  | case2 => cases read
  | case3 => cases read
  | case4 _ _ _ _ _ more left found ih =>
    cases read
    have bound := ih _ _ found
    simp only [List.length_cons]
    omega
  | case5 => exact absurd read (unexpected_ne _ _ _ _)
  | case6 => cases read
  | case7 => cases read
  | case8 _ _ _ _ _ _ more left found ih =>
    cases read
    have bound := ih _ _ found
    simp only [List.length_cons]
    omega
  | case9 => exact absurd read (unexpected_ne _ _ _ _)
  | case10 =>
    cases read
    exact Nat.le_refl _

theorem external_length (tokens : List Located) : (external tokens).2.length ≤ tokens.length := by
  unfold external
  split
  · exact Nat.le_succ _
  · exact Nat.le_refl _

theorem reference_length (stop : Position) (name : Text) (tokens rest : List Located)
    (found : Reference) (read : reference stop name tokens = .ok (found, rest)) :
    rest.length ≤ tokens.length := by
  unfold reference at read
  split at read
  · cases read
  · rename_i number behind first
    split at read
    · cases read
    · rename_i inwards left second
      cases read
      have one := version_length _ _ _ first
      have two := steps_length _ _ _ _ second
      have three := external_length left
      omega

theorem expect_length (stop : Position) (mark : Delimiter) (tokens rest : List Located)
    (read : expect stop mark tokens = .ok rest) : rest.length ≤ tokens.length := by
  unfold expect at read
  split at read
  · exact absurd read (unexpected_ne _ _ _ _)
  · split at read
    · cases read
      exact Nat.le_succ _
    · exact absurd read (unexpected_ne _ _ _ _)

theorem complex_length (stop opened : Position) (tokens rest : List Located) (value : Value)
    (read : complex stop opened tokens = .ok (value, rest)) : rest.length ≤ tokens.length := by
  unfold complex at read
  simp only [bind, Except.bind] at read
  split at read
  · cases read
  · split at read
    · cases read
    · rename_i behind first
      split at read
      · cases read
      · split at read
        · cases read
        · rename_i last second
          split at read
          · cases read
            have one := expect_length _ _ _ _ first
            have two := expect_length _ _ _ _ second
            simp only [List.length_tail] at one two
            omega
          · cases read

theorem skip_comma_length (tokens : List Located) :
    (skipComma tokens).length ≤ tokens.length := by
  unfold skipComma
  split
  · exact Nat.le_succ _
  · exact Nat.le_refl _

-- Expressions are evaluated as they are read, so a reference sees exactly the bindings before it.
mutual
def expression (scope : Scope) (tokens : List Located) : Except Error (Step Value tokens) :=
  match tokens with
  | [] => unexpected scope.stop .value []
  | ⟨.number literal, position⟩ :: rest =>
    match Number.ofLiteral literal with
    | .ok number => .ok ⟨.number number, .none, rest, Nat.lt_succ_self _⟩
    | .error cause => .error (.badNumber position literal cause)
  | ⟨.quoted literal, position⟩ :: rest =>
    match Value.ofString literal with
    | .ok value => .ok ⟨value, .none, rest, Nat.lt_succ_self _⟩
    | .error cause => .error (.badLiteral position cause)
  | ⟨.delimiter .openBrace, opened⟩ :: rest =>
    match entries scope opened rest with
    | .ok ⟨found, notes, left, shorter⟩ =>
      .ok ⟨.table (Keyed.ofList found), notes, left, Nat.lt_succ_of_lt shorter⟩
    | .error error => .error error
  | ⟨.delimiter .openBracket, opened⟩ :: rest =>
    match elements scope opened rest with
    | .ok ⟨found, notes, left, shorter⟩ =>
      .ok ⟨.sequence found, notes, left, Nat.lt_succ_of_lt shorter⟩
    | .error error => .error error
  | ⟨.delimiter .openParen, opened⟩ :: rest =>
    match read : complex scope.stop opened rest with
    | .ok (value, left) =>
      .ok ⟨value, .none, left, Nat.lt_succ_of_le (complex_length _ _ _ _ _ read)⟩
    | .error error => .error error
  | ⟨.word word, position⟩ :: rest =>
    if word = trueWord then .ok ⟨.bool true, .none, rest, Nat.lt_succ_self _⟩
    else if word = falseWord then .ok ⟨.bool false, .none, rest, Nat.lt_succ_self _⟩
    else if word = nilWord then .ok ⟨.nil, .none, rest, Nat.lt_succ_self _⟩
    else if word = beginProlog ∨ word = endProlog then
      .error (.parse position (.misplacedWord word))
    else
      match read : reference scope.stop word rest with
      | .error error => .error error
      | .ok (found, left) =>
        match found.resolve scope position with
        | .error error => .error error
        | .ok (value, notes) =>
          .ok ⟨value, notes, left, Nat.lt_succ_of_le (reference_length _ _ _ _ _ read)⟩
  | ⟨.delimiter mark, position⟩ :: rest =>
    unexpected scope.stop .value (⟨.delimiter mark, position⟩ :: rest)
  | ⟨.deferred place, position⟩ :: rest =>
    unexpected scope.stop .value (⟨.deferred place, position⟩ :: rest)
termination_by 2 * tokens.length

def entries (scope : Scope) (opened : Position) (tokens : List Located) :
    Except Error (Step (List (Text × Flagged Value)) tokens) :=
  match tokens with
  | [] => .error (.parse opened .unterminatedTable)
  | ⟨.delimiter .closeBrace, _⟩ :: rest => .ok ⟨[], .none, rest, Nat.lt_succ_self _⟩
  | first :: rest =>
    match name first with
    | .error error => .error error
    | .ok key =>
      match rest with
      | ⟨.delimiter .colon, _⟩ :: behind =>
        match expression scope behind with
        | .error error => .error error
        | .ok ⟨value, notes, left, shorter⟩ =>
          match entries scope opened (skipComma left) with
          | .error error => .error error
          | .ok ⟨found, more, last, shorterStill⟩ =>
            .ok ⟨(key, ⟨false, value⟩) :: found, notes ++ more, last, by
              have bound := skip_comma_length left
              simp only [List.length_cons]
              omega⟩
      | other => unexpected scope.stop (.delimiter .colon) other
termination_by 2 * tokens.length + 1
decreasing_by
  · simp only [List.length_cons]
    omega
  · have bound := skip_comma_length left
    simp only [List.length_cons]
    omega

def elements (scope : Scope) (opened : Position) (tokens : List Located) :
    Except Error (Step (List (Flagged Value)) tokens) :=
  match tokens with
  | [] => .error (.parse opened .unterminatedArray)
  | ⟨.delimiter .closeBracket, _⟩ :: rest => .ok ⟨[], .none, rest, Nat.lt_succ_self _⟩
  | first :: rest =>
    match expression scope (first :: rest) with
    | .error error => .error error
    | .ok ⟨value, notes, left, shorter⟩ =>
      match left with
      | [] => .error (.parse opened .unterminatedArray)
      | ⟨.delimiter .closeBracket, _⟩ :: last =>
        .ok ⟨[⟨false, value⟩], notes, last, Nat.lt_of_succ_lt shorter⟩
      | ⟨.delimiter .comma, _⟩ :: behind =>
        match elements scope opened behind with
        | .error error => .error error
        | .ok ⟨found, more, last, shorterStill⟩ =>
          .ok ⟨⟨false, value⟩ :: found, notes ++ more, last,
            Nat.lt_trans shorterStill (Nat.lt_of_succ_lt shorter)⟩
      | ⟨token, position⟩ :: _ =>
        .error (.parse position (.unexpected .elementEnd (some token)))
termination_by 2 * tokens.length + 1
decreasing_by
  · exact Nat.lt_succ_self _
  · have further := Nat.lt_of_succ_lt shorter
    omega
end

def binding (scope : Scope) (inProlog : Bool) (tokens : List Located) :
    Except Error (Step Binding tokens) :=
  match tokens with
  | ⟨.word word, position⟩ :: ⟨.delimiter .colon, _⟩ :: rest =>
    if isReserved word then .error (.parse position (.reservedName word))
    else
      match expression scope rest with
      | .error error => .error error
      | .ok ⟨value, notes, left, shorter⟩ =>
        .ok ⟨⟨some word, ⟨inProlog, value⟩, position⟩, notes, left,
          Nat.lt_succ_of_lt (Nat.lt_succ_of_lt shorter)⟩
  | [] => unexpected scope.stop .value []
  | ⟨token, position⟩ :: rest =>
    match expression scope (⟨token, position⟩ :: rest) with
    | .error error => .error error
    | .ok ⟨value, notes, left, shorter⟩ =>
      .ok ⟨⟨none, ⟨inProlog, value⟩, position⟩, notes, left, shorter⟩

end Parser

namespace Document

def push (document : Document) (binding : Binding) (notes : Notes) : Document :=
  ⟨document.bindings ++ [binding], document.diagnostics ++ notes.diagnostics,
    document.deferred ++ notes.deferred⟩

-- `prolog` is where an open prolog started.
def extend (options : ParseOptions) (stop : Position) (prolog : Option Position)
    (document : Document) (tokens : List Located) : Except Error Document :=
  match tokens with
  | [] =>
    match prolog with
    | none => .ok document
    | some opened => .error (.parse opened .unterminatedProlog)
  | ⟨token, position⟩ :: rest =>
    if token = .word beginProlog then
      if options.allowProlog = false then .error (.parse position .prologDisabled)
      else if prolog.isSome then .error (.parse position .nestedProlog)
      else extend options stop (some position) document rest
    else if token = .word endProlog then
      if prolog.isNone then .error (.parse position .strayPrologEnd)
      else extend options stop none document rest
    else
      match Parser.binding ⟨document, options.strictReferences, stop⟩ prolog.isSome
        (⟨token, position⟩ :: rest) with
      | .error error => .error error
      | .ok ⟨binding, notes, left, _⟩ =>
        extend options stop prolog (document.push binding notes) left
termination_by tokens.length
decreasing_by
  · exact Nat.lt_succ_self _
  · exact Nat.lt_succ_self _
  · rename_i shorter
    exact shorter

def read (options : ParseOptions) (source : Text) : Except Error Document := do
  let stream ← TokenStream.ofSource source
  extend options stream.stop none empty stream.tokens

end Document

def Value.read (source : Text) : Except Error Value := do
  let stream ← TokenStream.ofSource source
  let found ← Parser.expression ⟨.empty, true, stream.stop⟩ stream.tokens
  match found.rest with
  | [] => .ok found.value
  | rest => Parser.unexpected stream.stop .endOfInput rest

end ParamStore

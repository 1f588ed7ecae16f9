import ParamStore.Proofs.CellTables

set_option autoImplicit false

namespace ParamStore
namespace Framing

section Delimited

variable {α β : Type} {fits : α → Prop} {write : α → List UInt8}

-- The bytes of an item are split off in one way only, whatever follows them.
def Delimits (fits : α → Prop) (write : α → List UInt8) (item : α) : Prop :=
  ∀ other, fits other → ∀ rest otherRest,
    write item ++ rest = write other ++ otherRest → item = other ∧ rest = otherRest

def Delimited (fits : α → Prop) (write : α → List UInt8) : Prop :=
  ∀ item, fits item → Delimits fits write item

theorem Delimited.injective (delimited : Delimited fits write) (item other : α) (here : fits item)
    (there : fits other) (same : write item = write other) : item = other :=
  (delimited item here other there [] [] (by rw [same])).1

theorem Delimited.prefix_iff (delimited : Delimited fits write) (item other : α) (here : fits item)
    (there : fits other) : write item <+: write other ↔ item = other := by
  constructor
  · intro starts
    obtain ⟨rest, whole⟩ := starts
    exact (delimited item here other there rest [] (by simpa using whole)).1
  · intro same
    subst same
    exact List.prefix_rfl

theorem Delimited.pair {otherFits : β → Prop} {writeOther : β → List UInt8}
    (first : Delimited fits write) (second : Delimited otherFits writeOther) :
    Delimited (fun both : α × β => fits both.1 ∧ otherFits both.2)
      fun both => write both.1 ++ writeOther both.2 := by
  intro both here others there rest otherRest same
  simp only [List.append_assoc] at same
  obtain ⟨firsts, behind⟩ := first both.1 here.1 others.1 there.1 _ _ same
  obtain ⟨seconds, rests⟩ := second both.2 here.2 others.2 there.2 _ _ behind
  exact ⟨Prod.ext firsts seconds, rests⟩

-- A run of items does not show where it ends, so their number has to be known. Nothing is asked of
-- items that are not in the run: cells are told apart by an induction that has no more.
theorem run_delimits (items others : List α) (length : items.length = others.length)
    (each : ∀ item ∈ items, Delimits fits write item) (there : ∀ item ∈ others, fits item)
    (rest otherRest : List UInt8)
    (same : items.flatMap write ++ rest = others.flatMap write ++ otherRest) :
    items = others ∧ rest = otherRest := by
  induction items generalizing others with
  | nil =>
    cases others with
    | nil => exact ⟨rfl, same⟩
    | cons other otherTail => cases length
  | cons item tail ih =>
    cases others with
    | nil => cases length
    | cons other otherTail =>
      simp only [List.flatMap_cons, List.append_assoc] at same
      obtain ⟨first, tailDelimits⟩ := List.forall_mem_cons.mp each
      obtain ⟨otherFits, tailFits⟩ := List.forall_mem_cons.mp there
      obtain ⟨firsts, behind⟩ := first other otherFits _ _ same
      obtain ⟨tails, rests⟩ := ih otherTail (Nat.succ.inj length) tailDelimits tailFits behind
      exact ⟨by rw [firsts, tails], rests⟩

end Delimited

def countLimit : Nat := Width.w64.count

theorem count_length (n : Nat) : (count n).length = 8 := by simp [count]

theorem byte_eq (a b : Nat) (same : UInt8.ofNat a = UInt8.ofNat b) : a % 256 = b % 256 := by
  simpa using congrArg UInt8.toNat same

-- Equal bytes at one place and equal numbers above it make equal numbers from that place on.
theorem div_eq_below (n m place : Nat) (above : n / (place * 256) = m / (place * 256))
    (bytes : n / place % 256 = m / place % 256) : n / place = m / place := by
  rw [← Nat.div_div_eq_div_mul, ← Nat.div_div_eq_div_mul] at above
  omega

theorem count_injective (n m : Nat) (fits : n < countLimit) (otherFits : m < countLimit)
    (same : count n = count m) : n = m := by
  have bytes : ∀ shift ∈ [0, 8, 16, 24, 32, 40, 48, 56],
      n / 2 ^ shift % 256 = m / 2 ^ shift % 256 := by
    intro shift member
    have byte := List.map_inj_left.mp same shift member
    simpa only [Nat.shiftRight_eq_div_pow] using byte_eq _ _ byte
  have top : n / 2 ^ 64 = m / 2 ^ 64 :=
    (Nat.div_eq_of_lt fits).trans (Nat.div_eq_of_lt otherFits).symm
  have e7 := div_eq_below n m (2 ^ 56) top (bytes 56 (by simp))
  have e6 := div_eq_below n m (2 ^ 48) e7 (bytes 48 (by simp))
  have e5 := div_eq_below n m (2 ^ 40) e6 (bytes 40 (by simp))
  have e4 := div_eq_below n m (2 ^ 32) e5 (bytes 32 (by simp))
  have e3 := div_eq_below n m (2 ^ 24) e4 (bytes 24 (by simp))
  have e2 := div_eq_below n m (2 ^ 16) e3 (bytes 16 (by simp))
  have e1 := div_eq_below n m (2 ^ 8) e2 (bytes 8 (by simp))
  have e0 := div_eq_below n m (2 ^ 0) e1 (bytes 0 (by simp))
  simpa using e0

theorem count_delimited : Delimited (· < countLimit) count := by
  intro n fits m otherFits rest otherRest same
  have length : (count n).length = (count m).length := by rw [count_length, count_length]
  obtain ⟨counts, rests⟩ := List.append_inj same length
  exact ⟨count_injective n m fits otherFits counts, rests⟩

theorem utf8_injective (a b : Text) (same : utf8 a = utf8 b) : a = b := by
  have bytes : List.utf8Encode a = List.utf8Encode b := congrArg List.toByteArray same
  have decoded := congrArg ByteArray.utf8Decode? bytes
  rw [List.utf8Decode?_utf8Encode, List.utf8Decode?_utf8Encode] at decoded
  exact congrArg Array.toList (Option.some.inj decoded)

def Fits (content : Text) : Prop := (utf8 content).length < countLimit

instance (content : Text) : Decidable (Fits content) := inferInstanceAs (Decidable (_ < _))

theorem text_delimited : Delimited Fits text := by
  intro a fits b otherFits rest otherRest same
  simp only [text, List.append_assoc] at same
  obtain ⟨length, bytes⟩ := count_delimited _ fits _ otherFits _ _ same
  obtain ⟨contents, rests⟩ := List.append_inj bytes length
  exact ⟨utf8_injective a b contents, rests⟩

theorem digest_delimited : Delimited (fun _ => True) digest := by
  intro a _ b _ rest otherRest same
  obtain ⟨bytes, rests⟩ := List.append_inj same (a.size.trans b.size.symm)
  obtain ⟨_, _⟩ := a
  obtain ⟨_, _⟩ := b
  exact ⟨by simpa [digest] using bytes, rests⟩

end Framing

theorem AtomKind.code_injective (a b : AtomKind) (same : a.code = b.code) : a = b := by
  cases a <;> cases b <;> first | rfl | cases same

namespace Cell

mutual
def Fits : Cell → Prop
  | .atom a => Framing.Fits a.text
  | .sequence items => items.length < Framing.countLimit ∧ ItemsFit items
  | .table _ => True
def ItemsFit : List Cell → Prop
  | [] => True
  | item :: tail => Fits item ∧ ItemsFit tail
end

mutual
def decideFits : (cell : Cell) → Decidable cell.Fits
  | .atom a => inferInstanceAs (Decidable (Framing.Fits a.text))
  | .sequence items => @instDecidableAnd _ _ _ (decideItemsFit items)
  | .table _ => inferInstanceAs (Decidable True)
def decideItemsFit : (items : List Cell) → Decidable (ItemsFit items)
  | [] => inferInstanceAs (Decidable True)
  | item :: tail => @instDecidableAnd _ _ (decideFits item) (decideItemsFit tail)
end

instance (cell : Cell) : Decidable cell.Fits := decideFits cell

theorem items_fit_iff (items : List Cell) : ItemsFit items ↔ ∀ item ∈ items, item.Fits := by
  induction items with
  | nil => simp [ItemsFit]
  | cons item tail ih => simp [ItemsFit, ih]

theorem item_stream_flat (items : List Cell) : itemStream items = items.flatMap stream := by
  induction items with
  | nil => rfl
  | cons item tail ih => rw [itemStream, ih, List.flatMap_cons]

-- The tags tell the shapes apart, the counts where texts and sequences end.
mutual
theorem stream_delimits (cell : Cell) (fits : cell.Fits) :
    Framing.Delimits Fits stream cell := by
  intro other otherFits rest otherRest same
  cases cell with
  | atom a =>
    cases other with
    | atom b =>
      simp only [stream, Framing.tag, List.cons_append, List.nil_append, List.cons.injEq,
        true_and] at same
      obtain ⟨codes, bytes⟩ := same
      obtain ⟨texts, rests⟩ := Framing.text_delimited a.text fits b.text otherFits _ _ bytes
      have kinds := AtomKind.code_injective a.kind b.kind codes
      obtain ⟨_, _⟩ := a
      obtain ⟨_, _⟩ := b
      exact ⟨by simp_all, rests⟩
    | sequence items => simp [stream, Framing.tag] at same
    | table id => simp [stream, Framing.tag] at same
  | sequence items =>
    cases other with
    | atom b => simp [stream, Framing.tag] at same
    | sequence others =>
      simp only [stream, Framing.tag, List.cons_append, List.nil_append, List.append_assoc,
        List.cons.injEq, true_and, item_stream_flat] at same
      obtain ⟨length, bytes⟩ := Framing.count_delimited _ fits.1 _ otherFits.1 _ _ same
      obtain ⟨alike, rests⟩ := Framing.run_delimits items others length
        (items_delimit items fits.2) ((items_fit_iff others).mp otherFits.2) _ _ bytes
      exact ⟨congrArg Cell.sequence alike, rests⟩
    | table id => simp [stream, Framing.tag] at same
  | table id =>
    cases other with
    | atom b => simp [stream, Framing.tag] at same
    | sequence others => simp [stream, Framing.tag] at same
    | table otherId =>
      simp only [stream, Framing.tag, List.cons_append, List.nil_append, List.cons.injEq,
        true_and] at same
      obtain ⟨ids, rests⟩ := Framing.digest_delimited id trivial otherId trivial _ _ same
      exact ⟨congrArg Cell.table ids, rests⟩
theorem items_delimit (items : List Cell) (fit : ItemsFit items) :
    ∀ item ∈ items, Framing.Delimits Fits stream item := by
  match items with
  | [] => exact fun _ absent => absurd absent List.not_mem_nil
  | item :: tail =>
    exact List.forall_mem_cons.mpr ⟨stream_delimits item fit.1, items_delimit tail fit.2⟩
end

theorem stream_delimited : Framing.Delimited Fits stream := stream_delimits

end Cell

namespace Entries

def Fits (entries : Entries) : Prop :=
  entries.size < Framing.countLimit ∧
    ∀ entry ∈ entries.cells, Framing.Fits entry.1 ∧ entry.2.Fits

instance (entries : Entries) : Decidable entries.Fits := inferInstanceAs (Decidable (_ ∧ _))

theorem stream_delimited : Framing.Delimited Fits stream := by
  intro entries fits others otherFits rest otherRest same
  simp only [stream, List.append_assoc] at same
  obtain ⟨length, bytes⟩ := Framing.count_delimited _ fits.1 _ otherFits.1 _ _ same
  have members := Framing.text_delimited.pair Cell.stream_delimited
  obtain ⟨cells, rests⟩ := Framing.run_delimits entries.cells others.cells length
    (fun entry member => members entry (fits.2 entry member)) otherFits.2 rest otherRest bytes
  exact ⟨eq_of_cells entries others cells, rests⟩

theorem stream_injective (entries others : Entries) (fits : entries.Fits) (otherFits : others.Fits)
    (same : entries.stream = others.stream) : entries = others :=
  stream_delimited.injective entries others fits otherFits same

theorem uniquely_decodable (entries others : Entries) (fits : entries.Fits)
    (otherFits : others.Fits) (cell other : Cell) (cellFits : cell.Fits)
    (otherCellFits : other.Fits) :
    (entries.stream = others.stream ↔ entries = others) ∧
      (cell.stream <+: other.stream ↔ cell = other) := by
  refine ⟨⟨?_, ?_⟩, ?_⟩
  · exact stream_injective entries others fits otherFits
  · exact congrArg stream
  · exact Cell.stream_delimited.prefix_iff cell other cellFits otherCellFits

def plainItems : Cell := .sequence [.of .string ['x'], .of .string ['y']]

def disguisedItem : Cell := .sequence
  [.of .string ('x' :: (Cell.of .string ['y']).stream.map fun byte => Char.ofNat byte.toNat)]

def layered (items : Cell) : Entries :=
  (empty.put ['a'] (.sequence [items, .table empty.identifier])).put ['b'] .nil

theorem uniquely_decodable_disguised :
    (layered plainItems).Fits ∧ (layered disguisedItem).Fits ∧
      (Cell.of .string ['y']).stream <:+ plainItems.stream ∧
      (Cell.of .string ['y']).stream <:+ disguisedItem.stream ∧
      (layered plainItems).stream ≠ (layered disguisedItem).stream ∧
      ¬ (Cell.sequence [.of .string ['x']]).stream <+: plainItems.stream := by
  have fits : (layered plainItems).Fits := by decide +kernel
  have otherFits : (layered disguisedItem).Fits := by decide +kernel
  obtain ⟨streams, starts⟩ := uniquely_decodable (layered plainItems) (layered disguisedItem) fits
    otherFits (.sequence [.of .string ['x']]) plainItems (by decide +kernel) (by decide +kernel)
  refine ⟨fits, otherFits, by decide +kernel, by decide +kernel, ?_, ?_⟩
  · exact fun same => absurd (streams.mp same) (by decide +kernel)
  · exact fun front => absurd (starts.mp front) (by decide +kernel)

end Entries
end ParamStore

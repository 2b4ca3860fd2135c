import TradeWire.Proofs.Wire.RoundTrip
import TradeWire.Proofs.Wire.Succession

/-! An encoding is read again wherever it stands. -/

set_option autoImplicit false
set_option relaxedAutoImplicit false

namespace TradeWire

/-- Inside a buffer the reader finds what decoding finds, and ends inside it. -/
def Reader.Finds {α : Type} (read : Reader α) (decode : Bytes → Int → Option (α × Int)) : Prop :=
  ∀ (buf : Bytes) (pos : Int) (a : α) (stop : Int), Buffer.IsAddressable buf → 0 ≤ pos →
    pos ≤ buf.length → decode buf pos = some (a, stop) →
      read buf pos = .ok (a, stop) ∧ 0 ≤ stop ∧ stop ≤ buf.length

private theorem Reader.Finds.mapped {α β : Type} {read : Reader α} {decode : Bytes → Int → Option (α × Int)}
    (finds : read.Finds decode) (g : α → β) {buf : Bytes} {pos stop : Int} {a : α}
    (inMemory : Buffer.IsAddressable buf) (start : 0 ≤ pos) (within : pos ≤ buf.length)
    (decoded : decode buf pos = some (a, stop)) :
    0 ≤ stop ∧ stop ≤ buf.length ∧ read.mapped g buf pos = .ok (g a, stop) := by
  obtain ⟨here, begins, ends⟩ := finds buf pos a stop inMemory start within decoded
  exact ⟨begins, ends, Reader.mapped_eq_ok.mpr ⟨a, here, rfl⟩⟩

private theorem readInTurn_finds {α : Type} {read : Reader α} {decode : Bytes → Int → Option (α × Int)}
    (each : read.Finds decode) (count : Nat) :
    (readInTurn read count).Finds (decodeTimes decode count) := by
  induction count with
  | zero =>
    intro buf pos items stop _ start within decoded
    simp only [decodeTimes, Option.some.injEq, Prod.mk.injEq] at decoded
    obtain ⟨rfl, rfl⟩ := decoded
    exact ⟨rfl, start, within⟩
  | succ count ih =>
    intro buf pos items stop inMemory start within decoded
    simp only [decodeTimes] at decoded
    split at decoded
    · cases decoded
    · rename_i item next first
      obtain ⟨⟨others, behind⟩, tail, same⟩ := Option.map_eq_some_iff.mp decoded
      obtain ⟨rfl, rfl⟩ := Prod.mk.inj same
      obtain ⟨here, begun, inside⟩ := each buf pos item next inMemory start within first
      obtain ⟨there, ended, last⟩ := ih buf next others behind inMemory begun inside tail
      refine ⟨?_, ended, last⟩
      simp only [readInTurn, here, there]

/-- What is needed of a part so that its members are found. -/
structure ReadPart.IsFound (part : ReadPart) : Prop where
  field : part.field.Sound
  read : part.read = part.field.readNested
  below : ∀ element, part.field.element? = some element → element.read.Finds element.decode

private theorem readRun_block_finds (owner : String) (earlier : List Slot) {first : ReadPart}
    {rest : List ReadPart} (cut : (Run.block first rest).IsCut fun part => part.field.isElementary)
    (sound : ∀ part ∈ first :: rest, part.IsFound) (offset : Option Int) {buf : Bytes} {pos stop : Int}
    {all : List Slot} (inMemory : Buffer.IsAddressable buf)
    (decoded : decodeFields ((first :: rest).map ReadPart.field) earlier buf pos = some (all, stop)) :
    ∃ slots, all = earlier ++ slots ∧ 0 ≤ stop ∧ stop ≤ buf.length ∧
      readRun owner earlier ⟨.block first rest, (Run.block first rest).width ReadPart.field, offset⟩ buf
        pos = .ok (slots, stop) := by
  obtain ⟨start, within⟩ := inside_of_decode_block cut decoded
  obtain ⟨slots, read, again⟩ := readRun_block_eq owner earlier cut
    (fun part member => (sound part member).field) offset start (by
      unfold Buffer.IsAddressable at inMemory
      omega) within
  rw [again] at decoded
  cases decoded
  exact ⟨slots, rfl, by omega, within, read⟩

private theorem readRun_varBytes_finds (owner : String) {earlier : List Slot} {name type : String}
    {size counter : Nat} {reader : Nat → Reader Slot} {width : Int} {offset : Option Int} {buf data : Bytes}
    {pos : Int} (inMemory : Buffer.IsAddressable buf) (bounded : (rawAt earlier counter).toNat ≤ size)
    (stretch : Buffer.slice? buf pos (rawAt earlier counter).toNat = some data) :
    0 ≤ pos + ((rawAt earlier counter).toNat : Int) ∧
      pos + ((rawAt earlier counter).toNat : Int) ≤ buf.length ∧
        readRun owner earlier
            ⟨.single ⟨.primitive name type size (.varBytes counter), reader⟩, width, offset⟩ buf pos =
          .ok ([.bytes data], pos + (rawAt earlier counter).toNat) := by
  obtain ⟨start, _, inside, _⟩ := Buffer.slice?_eq_some.mp stretch
  have bound := inMemory
  unfold Buffer.IsAddressable at bound
  have least : Word.minSigned ≤ 0 := by decide
  have sum : Word.add pos ((rawAt earlier counter).toNat : Int) =
      pos + ((rawAt earlier counter).toNat : Int) := Word.add_eq (by omega) (by omega)
  have present : Buffer.isShort buf.length pos ((rawAt earlier counter).toNat : Int) = false := by
    rw [Buffer.isShort_eq_not_isInside buf.length (by omega) (by omega)]
    simp [Buffer.isInside, start, inside]
  refine ⟨by omega, inside, ?_⟩
  simp only [readRun_varBytes, Nat.not_lt.mpr bounded, if_false, present, Bool.false_eq_true, readAt,
    stretch, Except.map, sum]

private theorem readRun_finds (owner : String) (earlier : List Slot) {run : Run ReadPart}
    (cut : run.IsCut fun part => part.field.isElementary) (sound : ∀ part ∈ run.members, part.IsFound)
    {buf : Bytes} {pos stop : Int} {all : List Slot} (inMemory : Buffer.IsAddressable buf)
    (start : 0 ≤ pos) (within : pos ≤ buf.length)
    (decoded : decodeFields (run.members.map ReadPart.field) earlier buf pos = some (all, stop)) :
    ∃ slots, all = earlier ++ slots ∧ 0 ≤ stop ∧ stop ≤ buf.length ∧
      readRun owner earlier ⟨run, run.width ReadPart.field, none⟩ buf pos = .ok (slots, stop) := by
  cases run with
  | block first rest => exact readRun_block_finds owner earlier cut sound none inMemory decoded
  | single part =>
    have known := sound part (by simp [Run.members])
    obtain ⟨f, read⟩ := part
    obtain ⟨field, reads, below⟩ := known
    simp only at field reads below
    subst reads
    simp only [Run.members, List.map_cons, List.map_nil, decodeFields_singleton] at decoded
    obtain ⟨⟨s, behind⟩, found, same⟩ := Option.map_eq_some_iff.mp decoded
    obtain ⟨rfl, rfl⟩ := Prod.mk.inj same
    refine ⟨[s], rfl, ?_⟩
    cases Field.decodes_of_some found with
    | int | pad | bytes => simp [Run.IsCut, Field.isElementary] at cut
    | varBytes bounded stretch => exact readRun_varBytes_finds owner inMemory bounded stretch
    | once inner =>
      rw [readRun_nested_once]
      exact (below _ rfl).mapped _ inMemory start within inner
    | array items =>
      rw [readRun_nested_array]
      exact (readInTurn_finds (below _ rfl) _).mapped _ inMemory start within items
    | group bounded items =>
      rw [readRun_nested_group bounded]
      exact (readInTurn_finds (below _ rfl) _).mapped _ inMemory start within items

private theorem readBehind_finds (owner : String) {runs : List (Run ReadPart)}
    (cut : ∀ run ∈ runs, run.IsCut fun part => part.field.isElementary)
    (sound : ∀ run ∈ runs, ∀ part ∈ run.members, part.IsFound) {buf : Bytes} {pos stop : Int}
    {earlier all : List Slot} (inMemory : Buffer.IsAddressable buf) (start : 0 ≤ pos)
    (within : pos ≤ buf.length)
    (decoded : decodeFields ((runs.flatMap Run.members).map ReadPart.field) earlier buf pos =
      some (all, stop)) :
    readBehind owner earlier runs buf pos = .ok (all, stop) ∧ 0 ≤ stop ∧ stop ≤ buf.length := by
  induction runs generalizing earlier pos with
  | nil =>
    simp only [List.flatMap_nil, List.map_nil, decodeFields, Option.some.injEq, Prod.mk.injEq] at decoded
    obtain ⟨rfl, rfl⟩ := decoded
    exact ⟨rfl, start, within⟩
  | cons run rest ih =>
    simp only [List.flatMap_cons, List.map_append, decodeFields_append] at decoded
    obtain ⟨⟨some_slots, mid⟩, first, tail⟩ := Option.bind_eq_some_iff.mp decoded
    obtain ⟨slots, rfl, begun, inside, here⟩ := readRun_finds owner earlier (cut run (by simp))
      (sound run (by simp)) inMemory start within first
    obtain ⟨there, bounds⟩ := ih (fun other later => cut other (by simp [later]))
      (fun other later => sound other (by simp [later])) begun inside tail
    exact ⟨Reader.andThen_eq_ok.mpr ⟨slots, mid, here, there⟩, bounds⟩

/-- Inside a buffer an instance of a sound layout is found, whatever the sizes of the layout. -/
theorem Layout.Sound.read_finds {l : Layout} (sound : l.Sound) : l.read.Finds l.decode := by
  induction sound with
  | @mk name message size fields widths counters sized static elements ih =>
    intro buf pos slots stop inMemory start within decoded
    have whole : (Layout.mk name message size fields).Sound := .mk widths counters sized static elements
    have bound := inMemory
    unfold Buffer.IsAddressable at bound
    have least : Word.minSigned ≤ 0 := by decide
    have names : ((readingRuns fields).flatMap Run.members).map ReadPart.field = fields := by
      simp [flatMap_members_readingRuns, Function.comp_def]
    simp only [Layout.decode] at decoded
    rw [whole.read_eq_readBehind buf (by omega) (by omega)]
    refine readBehind_finds name (isCut_of_mem_readingRuns fields) ?_ inMemory start within ?_
    · exact forall_mem_readingRuns fun f here => ⟨whole.field here, rfl, ih f here⟩
    · rw [names]
      exact decoded

/-- An encoding is read to the filled instance, wherever it stands in a buffer. -/
theorem Layout.Sound.unpack_encode {l : Layout} (sound : l.Sound) {slots : List Slot} {b : Bytes}
    (shape : l.Admits slots) (encoded : l.encode slots = .ok b) {before after : Bytes}
    (inMemory : Buffer.IsAddressable (before ++ b ++ after)) :
    Record.unpack l (before ++ b ++ after) before.length =
      .ok (⟨l, l.filledSlots slots⟩, ((before ++ b).length : Int)) := by
  have decoded := sound.roundTrips slots b shape encoded before after
  obtain ⟨read, _⟩ := sound.read_finds _ _ _ _ inMemory (by omega)
    (by simp only [List.length_append]; omega) decoded
  simp only [Record.unpack, read, Except.map]

theorem Layout.Sound.unpack_encode_alone {l : Layout} (sound : l.Sound) {slots : List Slot} {b : Bytes}
    (shape : l.Admits slots) (encoded : l.encode slots = .ok b) (inMemory : Buffer.IsAddressable b) :
    Record.unpack l b 0 = .ok (⟨l, l.filledSlots slots⟩, b.length) := by
  have whole : [] ++ b ++ [] = b := List.append_nil b
  have anywhere := sound.unpack_encode shape encoded (whole.symm ▸ inMemory)
  rw [whole] at anywhere
  exact anywhere

end TradeWire

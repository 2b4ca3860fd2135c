import TradeWire.Proofs.Wire.Packing
import TradeWire.Session.Outgoing

/-! Writing replaces the bytes of a stretch of the buffer and leaves all others alone. -/

set_option autoImplicit false
set_option relaxedAutoImplicit false

namespace TradeWire

def Writer.NeedsRoom (write : Writer) (room : Nat) : Prop :=
  ∀ (buf : Bytes) (p : Int) (out : Bytes) (stop : Int), Buffer.IsAddressable buf →
    Word.minSigned ≤ p → p ≤ Word.maxSigned → write buf p = .ok (out, stop) →
      0 ≤ p ∧ p + room ≤ buf.length

private theorem room_of_writeAt {owner field : String} {buf data out : Bytes} {start : Int}
    (written : writeAt owner field buf start data = .ok out) :
    0 ≤ start ∧ start + data.length ≤ buf.length := by
  by_cases inside : Buffer.isInside buf.length start data.length = true
  · simp only [Buffer.isInside, Bool.and_eq_true, decide_eq_true_eq] at inside
    exact ⟨inside.1.1, inside.2⟩
  · simp [writeAt, Buffer.patch?, inside] at written

private theorem Writer.Yields.inv {write : Writer} {room : Nat} {content : Except PackError Bytes}
    (yields : Writer.Yields write room content) {buf out : Bytes} {p : Nat} {stop : Int}
    (addressable : Buffer.IsAddressable buf) (inside : p + room ≤ buf.length)
    (written : write buf p = .ok (out, stop)) :
    ∃ b, content = .ok b ∧ out = Buffer.spliced buf p b ∧ stop = ((p + b.length : Nat) : Int) := by
  rw [yields buf p addressable inside] at written
  cases content with
  | error fault => cases written
  | ok b =>
    cases written
    exact ⟨b, rfl, rfl, rfl⟩

private theorem room_of_writeInTurn {n : Nat} {writers : List Writer} {contents : List (Except PackError Bytes)}
    (each : List.Forall₂ (fun write content => Writer.NeedsRoom write n ∧
      Writer.Yields write n content ∧ ∀ b, content = .ok b → b.length = n) writers contents)
    {buf out : Bytes} {p stop : Int} (addressable : Buffer.IsAddressable buf)
    (low : Word.minSigned ≤ p) (high : p ≤ Word.maxSigned)
    (placed : writers = [] → 0 ≤ p ∧ p ≤ buf.length)
    (written : writeInTurn writers buf p = .ok (out, stop)) :
    0 ≤ p ∧ p + ((writers.length * n : Nat) : Int) ≤ buf.length := by
  induction each generalizing buf p with
  | nil => simpa using placed rfl
  | @cons write content ws cs first rest ih =>
    obtain ⟨needs, yields, sized⟩ := first
    simp only [writeInTurn] at written
    split at written
    · cases written
    · rename_i middle next here
      obtain ⟨start, room⟩ := needs buf p middle next addressable low high here
      obtain ⟨q, rfl⟩ := Int.eq_ofNat_of_zero_le start
      obtain ⟨b, held, rfl, rfl⟩ := yields.inv addressable (by omega) here
      have size := sized b held
      have kept : (Buffer.spliced buf q b).length = buf.length := Buffer.length_spliced (by omega)
      have bound := addressable
      unfold Buffer.IsAddressable at bound
      have least : Word.minSigned ≤ 0 := by decide
      have others := ih (by simpa [Buffer.IsAddressable, kept] using addressable) (by omega) (by omega)
        (fun _ => ⟨by omega, by omega⟩) written
      rw [List.length_cons, Nat.add_mul, Nat.one_mul]
      omega

private theorem room_of_writeBlock {owner : String} (all : List Slot) {parts : List WritePart}
    (elementary : ∀ part ∈ parts, part.field.isElementary = true)
    (sound : ∀ part ∈ parts, part.IsSound) {buf out : Bytes} {start : Int} (offset : Nat)
    (addressable : Buffer.IsAddressable buf) (low : Word.minSigned ≤ start + offset)
    (high : start + offset ≤ Word.maxSigned) (begun : offset = 0 ∨ 0 ≤ start)
    (placed : parts = [] → 0 ≤ start + offset ∧ start + offset ≤ buf.length)
    (written : writeBlock owner start (Run.offsets WritePart.field offset parts) buf = .ok out) :
    0 ≤ start + offset ∧
      start + offset + ((parts.map fun part => part.field.reserve all).sum : Nat) ≤ buf.length := by
  induction parts generalizing buf offset with
  | nil => simpa using placed rfl
  | cons part rest ih =>
    have simple := elementary part (by simp)
    have reserved : part.field.reserve all = part.field.extent :=
      Field.reserve_of_not_dynamic (Field.not_dynamic_of_elementary simple)
    simp only [List.map_cons, List.sum_cons]
    simp only [Run.offsets] at written
    cases encoded : elementaryBytes owner part.field part.slot with
    | error fault => rw [writeBlock_cons_error encoded] at written; cases written
    | ok data =>
      have plain := elementaryBytes_eq simple owner all part.slot
      have size := Field.length_encode (sound part (by simp)).shape
        (sound part (by simp)).encodesExtent (plain.symm.trans encoded)
      have place : Word.add start offset = start + offset := Word.add_eq low high
      cases put : writeAt owner part.field.name buf (Word.add start offset) data with
      | error fault => simp [writeBlock, encoded, put] at written
      | ok next =>
        rw [writeBlock_cons_ok encoded put] at written
        rw [place] at put
        obtain ⟨begins, ends⟩ := room_of_writeAt put
        obtain ⟨q, same⟩ := Int.eq_ofNat_of_zero_le begins
        rw [same, writeAt_eq (by omega)] at put
        cases put
        have kept : (Buffer.spliced buf q data).length = buf.length := Buffer.length_spliced (by omega)
        have bound := addressable
        unfold Buffer.IsAddressable at bound
        -- the block starts inside the buffer, so no distance from its start is beyond the machine numbers
        have inside : 0 ≤ start := by
          rcases begun with none | some
          · simpa [none] using begins
          · exact some
        have behind : Word.add offset part.field.width = ((offset + data.length : Nat) : Int) := by
          rw [Field.width_of_elementary simple, ← reserved, ← size]
          exact Word.add_natCast (by omega)
        rw [behind] at written
        have least : Word.minSigned ≤ 0 := by decide
        have others := ih (fun other later => elementary other (by simp [later]))
          (fun other later => sound other (by simp [later]))
          (offset + data.length) (by simpa [Buffer.IsAddressable, kept] using addressable)
          (by omega) (by omega) (Or.inr inside) (fun _ => ⟨by omega, by omega⟩) written
        omega

/-- What is needed of a part so that its place is checked. -/
structure WritePart.IsAnchored (part : WritePart) : Prop where
  holds : ∀ name repetition element, part.field = .nested name repetition element → 0 < repetition.most
  below : ∀ element, part.field.element? = some element → ∀ slots, element.Admits slots →
    Writer.NeedsRoom (element.write slots) element.extent

private theorem room_of_writeItems {element : Layout} {items : List (List Slot)}
    (below : ∀ slots, element.Admits slots →
      Writer.Yields (element.write slots) element.extent (element.encode slots))
    (needs : ∀ slots, element.Admits slots → Writer.NeedsRoom (element.write slots) element.extent)
    (sized : element.EncodesExtent) (shape : ∀ item ∈ items, element.Admits item) {buf out : Bytes}
    {p stop : Int} (addressable : Buffer.IsAddressable buf) (low : Word.minSigned ≤ p)
    (high : p ≤ Word.maxSigned) (placed : items = [] → 0 ≤ p ∧ p ≤ buf.length)
    (written : writeInTurn (items.map element.write) buf p = .ok (out, stop)) :
    0 ≤ p ∧ p + ((items.length * element.extent : Nat) : Int) ≤ buf.length := by
  have each : List.Forall₂ (fun write content => Writer.NeedsRoom write element.extent ∧
      Writer.Yields write element.extent content ∧ ∀ b, content = .ok b → b.length = element.extent)
      (items.map element.write) (items.map element.encode) := by
    rw [List.forall₂_map_left_iff, List.forall₂_map_right_iff, List.forall₂_same]
    intro item member
    have admitted := shape item member
    exact ⟨needs item admitted, below item admitted, fun b => sized item b admitted⟩
  have room := room_of_writeInTurn each addressable low high (by simpa using placed) written
  rwa [List.length_map] at room

/-- How a run is written: what holds of its slots for each kind of run, and what is put where. -/
inductive WritesRun (owner : String) (all : List Slot) (buf : Bytes) (p : Int) (out : Bytes) :
    Run WritePart → Int → Prop
  | block {first : WritePart} {rest : List WritePart} {stop : Int}
      (written : writeBlock owner p (Run.offsets WritePart.field 0 (first :: rest)) buf = .ok out) :
      WritesRun owner all buf p out (.block first rest) stop
  | varBytes {name type : String} {size counter : Nat} {s : Slot} {write : Writer} {data : Bytes} {stop : Int}
      (bounded : (rawAt all counter).toNat ≤ size) (length : data.length = (rawAt all counter).toNat)
      (put : writeAt owner name buf p data = .ok out) :
      WritesRun owner all buf p out (.single ⟨.primitive name type size (.varBytes counter), s, write⟩) stop
  | once {name : String} {element : Layout} {slots : List Slot} {write : Writer} {stop : Int}
      (written : element.write slots buf p = .ok (out, stop)) :
      WritesRun owner all buf p out (.single ⟨.nested name .once element, .struct slots, write⟩) stop
  | array {name : String} {element : Layout} {items : List (List Slot)} {write : Writer} {stop : Int}
      (written : writeInTurn (items.map element.write) buf p = .ok (out, stop)) :
      WritesRun owner all buf p out
        (.single ⟨.nested name (.array items.length) element, .elems items, write⟩) stop
  | group {name : String} {counter least most : Nat} {element : Layout} {items : List (List Slot)}
      {write : Writer} {stop : Int} (bounded : items.length ≤ most)
      (counted : items.length = (rawAt all counter).toNat)
      (written : writeInTurn (items.map element.write) buf p = .ok (out, stop)) :
      WritesRun owner all buf p out
        (.single ⟨.nested name (.group counter least most) element, .elems items, write⟩) stop

private theorem writesRun_of_ok {owner : String} {all : List Slot} {placed : PlacedRun WritePart}
    (cut : placed.run.IsCut fun part => part.field.isElementary)
    (sound : ∀ part ∈ placed.run.members, part.IsSound) {buf out : Bytes} {p stop : Int}
    (written : writeRun owner all placed buf p = .ok (out, stop)) :
    WritesRun owner all buf p out placed.run stop := by
  obtain ⟨run, width, offset⟩ := placed
  cases run with
  | block first rest =>
    simp only [writeRun] at written
    split at written
    · cases written
    · obtain ⟨changed, block, same⟩ := map_eq_ok.mp written
      cases same
      exact .block block
  | single part =>
    obtain ⟨_, shape, writes, _⟩ := sound part (by simp [Run.members])
    obtain ⟨f, s, write⟩ := part
    simp only at shape writes
    subst writes
    cases f with
    | primitive name type size kind =>
      cases kind with
      | varBytes counter =>
        rw [writeRun_varBytes] at written
        simp only [writeVarBytes] at written
        split at written
        · cases written
        · split at written
          · cases written
          · rename_i bounded short
            split at written
            · cases written
            · obtain ⟨changed, put, same⟩ := map_eq_ok.mp written
              cases same
              exact .varBytes (Nat.not_lt.mp bounded) (Buffer.length_zeroFilled (Nat.not_lt.mp short)) put
      | int | pad | bytes => simp [Run.IsCut, Field.isElementary] at cut
    | nested name repetition element =>
      cases repetition with
      | once =>
        cases s with
        | struct slots =>
          rw [writeRun_once] at written
          exact .once written
        | pad | int | bytes | elems => simp [Field.Admits] at shape
      | array count =>
        cases s with
        | elems items =>
          rw [writeRun_array] at written
          split at written
          · cases written
          · rename_i number
            obtain rfl : items.length = count := by simpa [Slot.count] using number
            exact .array written
        | pad | int | bytes | struct => simp [Field.Admits] at shape
      | group counter least most =>
        cases s with
        | elems items =>
          rw [writeRun_group] at written
          split at written
          · cases written
          · rename_i inside
            split at written
            · cases written
            · rename_i number
              have counted : items.length = (rawAt all counter).toNat := by
                simpa [Slot.count] using number
              simp only [Bool.or_eq_true, decide_eq_true_eq, not_or] at inside
              exact .group (by omega) counted written
        | pad | int | bytes | struct => simp [Field.Admits] at shape

/-- A run that was written had its bytes ahead. Only a dynamic run may write nothing, and then nobody
looks where it stands. -/
private theorem room_of_writeRun {owner : String} {all : List Slot} {placed : PlacedRun WritePart}
    (cut : placed.run.IsCut fun part => part.field.isElementary)
    (sound : ∀ part ∈ placed.run.members, part.IsSound)
    (anchored : ∀ part ∈ placed.run.members, part.IsAnchored)
    {buf out : Bytes} {p stop : Int} (addressable : Buffer.IsAddressable buf)
    (low : Word.minSigned ≤ p) (high : p ≤ Word.maxSigned)
    (started : placed.run.isDynamic WritePart.field = true → 0 ≤ p ∧ p ≤ buf.length)
    (written : writeRun owner all placed buf p = .ok (out, stop)) :
    0 ≤ p ∧ p + ((placed.run.members.map fun part => part.field.reserve all).sum : Nat) ≤ buf.length := by
  have writes := writesRun_of_ok cut sound written
  obtain ⟨run, width, offset⟩ := placed
  simp only at cut sound anchored started writes ⊢
  cases writes with
  | block block =>
    have room := room_of_writeBlock all cut sound 0 addressable (by simpa using low)
      (by simpa using high) (Or.inl rfl) (by simp) block
    simpa [Run.members] using room
  | varBytes bounded length put =>
    have room := room_of_writeAt put
    rw [length] at room
    simpa [Run.members, Field.reserve, Nat.min_eq_left bounded] using room
  | @once name element slots _ _ here =>
    have shape := (sound _ (List.mem_singleton_self _)).shape
    simp only [Field.Admits] at shape
    have needs := (anchored _ (List.mem_singleton_self _)).below element rfl
    simpa [Run.members, Field.reserve, Field.extent] using
      needs slots shape buf p out stop addressable low high here
  | @array name element items _ _ here =>
    have known := sound _ (List.mem_singleton_self _)
    have shape := known.shape
    simp only [Field.Admits] at shape
    have firm := anchored _ (List.mem_singleton_self _)
    have some_held := firm.holds _ _ _ rfl
    simp only [Repetition.most] at some_held
    have room := room_of_writeItems (known.below element rfl) (firm.below element rfl)
      (known.encodesExtent element rfl) shape addressable low high
      (fun none_held => by simp [none_held] at some_held) here
    simpa [Run.members, Field.reserve, Field.extent] using room
  | @group name counter least most element items _ _ bounded counted here =>
    have known := sound _ (List.mem_singleton_self _)
    have shape := known.shape
    simp only [Field.Admits] at shape
    have room := room_of_writeItems (known.below element rfl)
      ((anchored _ (List.mem_singleton_self _)).below element rfl) (known.encodesExtent element rfl) shape
      addressable low high (fun _ => started rfl) here
    simpa [Run.members, Field.reserve, ← counted, Nat.min_eq_left bounded] using room

private theorem room_of_writeRuns {owner : String} {all : List Slot} {runs : List (Run WritePart)}
    (cut : ∀ run ∈ runs, run.IsCut fun part => part.field.isElementary)
    (sound : ∀ run ∈ runs, ∀ part ∈ run.members, part.IsSound)
    (anchored : ∀ run ∈ runs, ∀ part ∈ run.members, part.IsAnchored)
    {buf out : Bytes} {base p stop : Int} {start : Option Int} (addressable : Buffer.IsAddressable buf)
    (low : Word.minSigned ≤ p) (high : p ≤ Word.maxSigned)
    (known : ∀ offset, start = some offset → Word.add base offset = p)
    (started : Run.StartStatic WritePart.field runs ∨ 0 ≤ p ∧ p ≤ buf.length)
    (written : writeRuns owner all base (Run.place WritePart.field start runs) buf p = .ok (out, stop)) :
    0 ≤ p ∧
      p + (((runs.flatMap Run.members).map fun part => part.field.reserve all).sum : Nat) ≤ buf.length := by
  induction runs generalizing buf p start with
  | nil =>
    rcases started with ⟨_, _, absurdity, _⟩ | inside
    · cases absurdity
    · simpa using inside
  | cons run rest ih =>
    simp only [List.flatMap_cons, List.map_append, List.sum_append_nat, Int.natCast_add]
    have cutHere := cut run (by simp)
    have soundHere := sound run (by simp)
    simp only [Run.place] at written
    rw [writeRuns_cons known] at written
    split at written
    · cases written
    · rename_i middle next here
      have startedHere : run.isDynamic WritePart.field = true → 0 ≤ p ∧ p ≤ buf.length := by
        intro dynamic
        rcases started with start | inside
        · rw [start.not_dynamic] at dynamic
          cases dynamic
        · exact inside
      obtain ⟨begins, ends⟩ := room_of_writeRun cutHere soundHere (anchored run (by simp))
        addressable low high startedHere here
      simp only at ends
      obtain ⟨q, rfl⟩ := Int.eq_ofNat_of_zero_le begins
      have width : (PlacedRun.mk run (run.width WritePart.field) start).width =
          run.width WritePart.field := rfl
      obtain ⟨b, content, rfl, rfl⟩ :=
        (writeRun_yields owner all cutHere soundHere width).inv addressable (by simp only; omega) here
      have size := length_joined_contents soundHere content
      have kept : (Buffer.spliced buf q b).length = buf.length := Buffer.length_spliced (by omega)
      have bound := addressable
      unfold Buffer.IsAddressable at bound
      have least : Word.minSigned ≤ 0 := by decide
      have behind : run.isDynamic WritePart.field = false →
          ((q + b.length : Nat) : Int) = q + run.extent WritePart.field := by
        intro constant
        rw [size, cutHere.reserve_eq_extent all constant, Int.natCast_add]
      have onward := Run.add_next_start (fun a inside => (soundHere a inside).field) known behind
        (by omega) (by omega)
      have others := ih (fun other later => cut other (by simp [later]))
        (fun other later => sound other (by simp [later]))
        (fun other later => anchored other (by simp [later]))
        (by simpa [Buffer.IsAddressable, kept] using addressable) (by omega) (by omega) onward
        (Or.inr ⟨by omega, by omega⟩) written
      omega

private theorem Layout.Anchored.write_needsRoom {l : Layout} (anchored : l.Anchored) (sound : l.Sound)
    {slots : List Slot} (shape : l.Admits slots) :
    Writer.NeedsRoom (l.write slots) (l.reserve slots) := by
  induction anchored generalizing slots with
  | @mk name message size first rest leads holds below ih =>
    intro buf p out stop inMemory low high written
    have kinds := Layout.admits_iff.mp shape
    have parts := isSound_of_mem_writeParts kinds (fun f member => sound.field member)
      (by
        intro f member element nested inner inside
        have field := sound.field member
        rw [← (field.element element nested).reserve_eq (field.static element nested) inner]
        exact (field.element element nested).write_yields inside)
    have firm : ∀ part ∈ writeParts (first :: rest) slots, part.IsAnchored := by
      intro part member
      have listed : part.field ∈ first :: rest := by
        have names := map_field_writeParts shape.length_eq
        simp only [Layout.fields] at names
        exact names ▸ List.mem_map_of_mem member
      refine ⟨?_, ?_⟩
      · intro fieldName repetition element same
        exact holds fieldName repetition element (same ▸ listed)
      · intro element nested inner inside
        have field := sound.field listed
        have whole := field.element element nested
        rw [← whole.reserve_eq (field.static element nested) inner]
        exact ih part.field listed element nested whole inside
    have members := Run.flatMap_members_partition (fun part : WritePart => part.field.isElementary)
      (writeParts (first :: rest) slots)
    have inMembers : ∀ run ∈ Run.partition (fun part : WritePart => part.field.isElementary)
        (writeParts (first :: rest) slots), ∀ part ∈ run.members,
          part ∈ writeParts (first :: rest) slots := by
      intro run member part inside
      exact members ▸ List.mem_flatMap.mpr ⟨run, member, inside⟩
    have reserved : ((writeParts (first :: rest) slots).map fun part => part.field.reserve slots).sum =
        (Layout.mk name message size (first :: rest)).reserve slots := by
      have names := map_field_writeParts shape.length_eq
      simp only [Layout.fields] at names
      conv_rhs => rw [Layout.reserve, Layout.fields, ← names, List.map_map]
      rfl
    have known : ∀ offset, some (0 : Int) = some offset → Word.add p offset = p := by
      intro offset zero
      cases zero
      exact (Word.add_eq (by omega) (by omega)).trans (Int.add_zero p)
    have leading : Run.StartStatic WritePart.field
        (Run.partition (fun part : WritePart => part.field.isElementary)
          (writeParts (first :: rest) slots)) := by
      cases kinds with
      | cons here there => exact Run.startStatic_partition _ leads _
    have room := room_of_writeRuns
      (Run.isCut_of_mem_partition (fun part : WritePart => part.field.isElementary) _)
      (fun run member part inside => parts part (inMembers run member part inside))
      (fun run member part inside => firm part (inMembers run member part inside))
      inMemory low high known (Or.inl leading) written
    rwa [members, reserved] at room

namespace Record

variable {r : Record}

/-- Packing into a buffer succeeds exactly where the packed bytes fit, and puts them there. -/
theorem packInto_eq_ok_iff (sound : r.layout.Sound) (anchored : r.layout.Anchored)
    (addressable : r.layout.IsAddressable) (shape : r.layout.Admits r.slots) {buf out : Bytes}
    {off stop : Int} (inMemory : Buffer.IsAddressable buf) (low : Word.minSigned ≤ off)
    (high : off ≤ Word.maxSigned) :
    r.packInto buf off = .ok (out, stop) ↔
      ∃ b, r.pack = .ok b ∧ 0 ≤ off ∧ off + b.length ≤ buf.length ∧ stop = off + b.length ∧
        out = Buffer.spliced buf off.toNat b := by
  have yields := sound.write_yields shape
  rw [r.pack_eq_encode sound addressable shape]
  constructor
  · intro written
    obtain ⟨begins, ends⟩ :=
      anchored.write_needsRoom sound shape buf off out stop inMemory low high written
    obtain ⟨p, rfl⟩ := Int.eq_ofNat_of_zero_le begins
    obtain ⟨b, encoded, rfl, rfl⟩ := yields.inv inMemory (by omega) written
    have length := sound.length_encode shape encoded
    exact ⟨b, encoded, begins, by omega, by omega, by simp⟩
  · rintro ⟨b, encoded, begins, ends, rfl, rfl⟩
    obtain ⟨p, rfl⟩ := Int.eq_ofNat_of_zero_le begins
    have length := sound.length_encode shape encoded
    have written := yields buf p inMemory (by omega)
    rw [encoded] at written
    simpa [packInto, Except.map] using written

private theorem encode_of_packInto (sound : r.layout.Sound) (anchored : r.layout.Anchored)
    (shape : r.layout.Admits r.slots) {out : Bytes} {stop : Int}
    (written : r.packInto (List.replicate r.encodedSize.toNat 0) 0 = .ok (out, stop)) :
    r.layout.encode r.slots = .ok out ∧ r.encodedSize = out.length ∧ stop = out.length := by
  have size := encodedSize_eq sound
  have low := Word.minSigned_le_wrap (r.layout.reserve r.slots)
  have high := Word.wrap_le_maxSigned (r.layout.reserve r.slots)
  have least : Word.minSigned ≤ 0 := by decide
  have most : 0 ≤ Word.maxSigned := by decide
  rw [← size] at low high
  have inMemory : Buffer.IsAddressable (List.replicate r.encodedSize.toNat 0) := by
    rw [Buffer.IsAddressable, List.length_replicate]
    omega
  obtain ⟨_, room⟩ := anchored.write_needsRoom sound shape _ 0 out stop inMemory least most written
  rw [List.length_replicate, Int.zero_add] at room
  have whole : r.encodedSize = r.layout.reserve r.slots := by
    rw [size]
    exact Word.wrap_natCast (by omega)
  have start : r.layout.write r.slots (List.replicate r.encodedSize.toNat 0) (0 : Nat) =
      .ok (out, stop) := written
  obtain ⟨b, encoded, spliced, behind⟩ := (sound.write_yields shape).inv inMemory
    (by rw [List.length_replicate]; omega) start
  have length := sound.length_encode shape encoded
  have fills : out = b := by
    rw [spliced, Buffer.spliced, List.take_zero, List.nil_append, Nat.zero_add,
      List.drop_eq_nil_of_le (by rw [List.length_replicate]; omega), List.append_nil]
  subst fills
  exact ⟨encoded, by omega, by omega⟩

theorem encode_of_pack (sound : r.layout.Sound) (anchored : r.layout.Anchored)
    (shape : r.layout.Admits r.slots) {b : Bytes} (packed : r.pack = .ok b) :
    r.layout.encode r.slots = .ok b ∧ r.encodedSize = b.length := by
  unfold pack at packed
  split at packed
  · cases packed
  · rename_i out stop written
    obtain ⟨encoded, size, behind⟩ := encode_of_packInto sound anchored shape written
    have whole : out.take stop.toNat = b := Except.ok.inj packed
    rw [behind, Int.toNat_natCast, List.take_length] at whole
    subst whole
    exact ⟨encoded, size⟩

theorem isAddressable_of_pack (sound : r.layout.Sound) (anchored : r.layout.Anchored)
    (shape : r.layout.Admits r.slots) {b : Bytes} (packed : r.pack = .ok b) :
    Buffer.IsAddressable b := by
  obtain ⟨_, size⟩ := encode_of_pack sound anchored shape packed
  rw [Buffer.IsAddressable, ← size, encodedSize_eq sound]
  exact Word.wrap_le_maxSigned _

private theorem length_lentBuffer (pooled : Bytes) (size : Nat) : (lentBuffer pooled size).length = size := by
  unfold lentBuffer
  split
  · exact List.length_replicate
  · rw [List.length_take]
    omega

/-- A message is framed as it packs, whatever the pooled buffer held before. -/
theorem frameIn_eq (sound : r.layout.Sound) (addressable : r.layout.IsAddressable)
    (shape : r.layout.Admits r.slots) (pooled : Bytes) (limit : Nat) :
    r.frameIn pooled limit = framed limit r.pack := by
  have bound := r.layout.reserve_le_capacity r.slots
  have room := addressable
  unfold Layout.IsAddressable at room
  have size := encodedSize_eq_reserve sound addressable
  have length := length_lentBuffer pooled (r.layout.reserve r.slots)
  have written := sound.write_yields shape (lentBuffer pooled (r.layout.reserve r.slots)) 0
    (by rw [Buffer.IsAddressable, length]; omega) (by omega)
  rw [Int.natCast_zero] at written
  rw [r.pack_eq_encode sound addressable shape, frameIn, packInto, size, Int.toNat_natCast, written]
  cases encoded : r.layout.encode r.slots with
  | error fault => rfl
  | ok b =>
    -- the bytes of the message fill the buffer that was lent for it
    have fills : Buffer.spliced (lentBuffer pooled (r.layout.reserve r.slots)) 0 b = b := by
      have whole := sound.length_encode shape encoded
      rw [Buffer.spliced, List.take_zero, List.nil_append, Nat.zero_add,
        List.drop_eq_nil_of_le (by omega), List.append_nil]
    simp only [Except.map, fills]

theorem framed_eq_ok {limit : Nat} {packed : Except PackError Bytes} {b : Bytes} :
    framed limit packed = .ok b ↔ packed = .ok b ∧ Frame.check limit b = .ok () := by
  cases packed with
  | error fault => simp [framed]
  | ok bytes =>
    simp only [framed, Except.ok.injEq]
    cases checked : Frame.check limit bytes with
    | error fault =>
      simp only [reduceCtorEq, false_iff, not_and]
      rintro rfl
      simp [checked]
    | ok _ =>
      simp only [Except.ok.injEq, iff_self_and]
      rintro rfl
      exact checked

theorem pack_of_frame (sound : r.layout.Sound) (anchored : r.layout.Anchored)
    (shape : r.layout.Admits r.slots) {limit : Nat} {b : Bytes} (sent : r.frame limit = .ok b) :
    r.pack = .ok b ∧ Frame.check limit b = .ok () := by
  have fresh : lentBuffer [] r.encodedSize.toNat = List.replicate r.encodedSize.toNat 0 := by
    unfold lentBuffer
    split
    · rfl
    · rename_i none
      have zero : r.encodedSize.toNat = 0 := by simpa using none
      simp [zero]
  rw [frame, frameIn, fresh] at sent
  obtain ⟨packed, checked⟩ := framed_eq_ok.mp sent
  refine ⟨?_, checked⟩
  cases written : r.packInto (List.replicate r.encodedSize.toNat 0) 0 with
  | error fault => simp [written, Except.map] at packed
  | ok answer =>
    obtain ⟨out, stop⟩ := answer
    simp only [written, Except.map, Except.ok.injEq] at packed
    obtain ⟨_, _, behind⟩ := encode_of_packInto sound anchored shape written
    simp [pack, written, behind, packed]

end Record

end TradeWire

import TradeWire.Proofs.Layout.Runs
import TradeWire.Proofs.Wire.Members

/-! Given room, a writer puts down the encoding of its members or reports the first fault. -/

set_option autoImplicit false
set_option relaxedAutoImplicit false

namespace TradeWire

namespace Buffer

/-- The length of a buffer is a signed machine number. -/
def IsAddressable (buf : Bytes) : Prop := (buf.length : Int) ≤ Word.maxSigned

instance (buf : Bytes) : Decidable (IsAddressable buf) :=
  inferInstanceAs (Decidable ((buf.length : Int) ≤ Word.maxSigned))

/-- The buffer with the bytes from `p` on replaced by `data`. -/
def spliced (buf : Bytes) (p : Nat) (data : Bytes) : Bytes :=
  buf.take p ++ data ++ buf.drop (p + data.length)

theorem length_spliced {buf data : Bytes} {p : Nat} (inside : p + data.length ≤ buf.length) :
    (spliced buf p data).length = buf.length := by
  simp only [spliced, List.length_append, List.length_take, List.length_drop]
  omega

@[simp] theorem spliced_nil (buf : Bytes) (p : Nat) : spliced buf p [] = buf := by simp [spliced]

private theorem spliced_spliced {buf a b : Bytes} {p : Nat} (inside : p + a.length + b.length ≤ buf.length) :
    spliced (spliced buf p a) (p + a.length) b = spliced buf p (a ++ b) := by
  have before : (buf.take p ++ a).length = p + a.length := by
    simp only [List.length_append, List.length_take]
    omega
  have front : (spliced buf p a).take (p + a.length) = buf.take p ++ a := by
    rw [spliced, ← before, List.take_left]
  have back : (spliced buf p a).drop (p + a.length + b.length) =
      buf.drop (p + (a ++ b).length) := by
    rw [spliced, ← before, ← List.drop_drop, List.drop_left, List.drop_drop, before,
      List.length_append, Nat.add_assoc]
  rw [spliced, front, back, spliced]
  simp

private theorem patch?_eq {buf data : Bytes} {p : Nat} (inside : p + data.length ≤ buf.length) :
    patch? buf p data = some (spliced buf p data) := by
  have within : isInside buf.length p data.length = true := by
    simp only [isInside, Bool.and_eq_true, decide_eq_true_eq]
    omega
  simp only [patch?, within, if_true, Int.toNat_natCast]
  rfl

theorem isShort_eq_false {length p count : Nat} (addressable : (length : Int) ≤ Word.maxSigned)
    (inside : p + count ≤ length) : isShort length p count = false := by
  have sum : Word.add p count = ((p + count : Nat) : Int) := Word.add_natCast (by omega)
  simp only [isShort, sum, Bool.or_eq_false_iff, decide_eq_false_iff_not]
  omega

end Buffer

/-- With `room` bytes ahead the writer puts the content there and stands behind it, or gives the fault
of the content. -/
def Writer.Yields (write : Writer) (room : Nat) (content : Except PackError Bytes) : Prop :=
  ∀ (buf : Bytes) (p : Nat), Buffer.IsAddressable buf → p + room ≤ buf.length →
    write buf p = content.map fun b => (Buffer.spliced buf p b, ((p + b.length : Nat) : Int))

theorem writeAt_eq {owner field : String} {buf data : Bytes} {p : Nat}
    (inside : p + data.length ≤ buf.length) :
    writeAt owner field buf p data = .ok (Buffer.spliced buf p data) := by
  simp only [writeAt, Buffer.patch?_eq inside]

private theorem writeInTurn_yields {n : Nat} {writers : List Writer} {contents : List (Except PackError Bytes)}
    (each : List.Forall₂ (fun write content => Writer.Yields write n content ∧
      ∀ b, content = .ok b → b.length = n) writers contents) :
    Writer.Yields (writeInTurn writers) (writers.length * n) (joined contents) := by
  induction each with
  | nil =>
    intro buf p _ _
    simp [writeInTurn, joined, Except.map]
  | @cons write content ws cs first rest ih =>
    intro buf p addressable room
    simp only [List.length_cons, Nat.add_mul, Nat.one_mul] at room
    simp only [writeInTurn]
    rw [first.1 buf p addressable (by omega)]
    cases content with
    | error fault => rfl
    | ok b =>
      have size := first.2 b rfl
      have kept : (Buffer.spliced buf p b).length = buf.length :=
        Buffer.length_spliced (by omega)
      have ahead := ih (Buffer.spliced buf p b) (p + b.length)
        (by simpa [Buffer.IsAddressable, kept] using addressable) (by omega)
      simp only [Except.map]
      rw [ahead, joined]
      cases tail : joined cs with
      | error fault => rfl
      | ok more =>
        have total : more.length = cs.length * n := by
          refine length_joined ?_ tail
          intro x member
          obtain ⟨i, here⟩ := List.mem_iff_getElem?.mp member
          obtain ⟨w, _, facts⟩ := forall₂_getElem? rest.flip here
          exact facts.2 x rfl
        have lengths := rest.length_eq
        rw [lengths] at room
        simp only [Except.map]
        rw [Buffer.spliced_spliced (by omega)]
        simp [Nat.add_assoc]

theorem elementaryBytes_eq {f : Field} (elementary : f.isElementary = true) (owner : String)
    (all : List Slot) (s : Slot) : elementaryBytes owner f s = f.encode owner all s := by
  match f with
  | .primitive _ _ _ (.int _) | .primitive _ _ _ .pad | .primitive _ _ _ (.bytes _) =>
    simp [elementaryBytes, Field.encode]
  | .primitive _ _ _ (.varBytes _) | .nested .. => simp [Field.isElementary] at elementary

def WritePart.content (owner : String) (all : List Slot) (part : WritePart) : Except PackError Bytes :=
  part.field.encode owner all part.slot

private theorem encodings_map (owner : String) (all : List Slot) (parts : List WritePart) :
    encodings owner all (parts.map WritePart.field) (parts.map WritePart.slot) =
      parts.map (WritePart.content owner all) := by
  induction parts with
  | nil => rfl
  | cons part rest ih => simp [encodings, WritePart.content, ih]

/-- What the codec knows of a part: its field is sound, its slot has the kind of the field, and it
writes what the slot holds. -/
structure WritePart.IsSound (part : WritePart) : Prop where
  field : part.field.Sound
  shape : part.field.Admits part.slot
  write : part.write = part.field.writeNested part.slot
  below : ∀ element, part.field.element? = some element → ∀ slots, element.Admits slots →
    Writer.Yields (element.write slots) element.extent (element.encode slots)

theorem WritePart.IsSound.encodesExtent {part : WritePart} (sound : part.IsSound) (element : Layout)
    (nested : part.field.element? = some element) : element.EncodesExtent :=
  sound.field.encodesExtent element nested

theorem length_joined_contents {owner : String} {all : List Slot} {parts : List WritePart} {b : Bytes}
    (sound : ∀ part ∈ parts, part.IsSound)
    (encoded : joined (parts.map (WritePart.content owner all)) = .ok b) :
    b.length = (parts.map fun part => part.field.reserve all).sum := by
  have shape : List.Forall₂ Field.Admits (parts.map WritePart.field) (parts.map WritePart.slot) := by
    rw [List.forall₂_map_left_iff, List.forall₂_map_right_iff, List.forall₂_same]
    intro part member
    exact (sound part member).shape
  rw [← encodings_map] at encoded
  have total := length_joined_encodings shape ?_ encoded
  · simpa [List.map_map, Function.comp_def] using total
  · intro f member element nested
    obtain ⟨part, inside, rfl⟩ := List.mem_map.mp member
    exact (sound part inside).encodesExtent element nested

theorem writeBlock_cons_error {owner : String} {start offset : Int} {part : WritePart}
    {rest : List (WritePart × Int)} {buf : Bytes} {fault : PackError}
    (failed : elementaryBytes owner part.field part.slot = .error fault) :
    writeBlock owner start ((part, offset) :: rest) buf = .error fault := by
  simp only [writeBlock, failed]

theorem writeBlock_cons_ok {owner : String} {start offset : Int} {part : WritePart}
    {rest : List (WritePart × Int)} {buf next data : Bytes}
    (encoded : elementaryBytes owner part.field part.slot = .ok data)
    (written : writeAt owner part.field.name buf (Word.add start offset) data = .ok next) :
    writeBlock owner start ((part, offset) :: rest) buf = writeBlock owner start rest next := by
  simp only [writeBlock, encoded, written]

private theorem writeBlock_eq (owner : String) {all : List Slot} {parts : List WritePart}
    (elementary : ∀ part ∈ parts, part.field.isElementary = true)
    (sound : ∀ part ∈ parts, part.IsSound) {buf : Bytes} {start : Nat} (offset : Nat)
    (addressable : Buffer.IsAddressable buf)
    (room : start + offset + (parts.map fun part => part.field.reserve all).sum ≤ buf.length) :
    writeBlock owner start (Run.offsets WritePart.field offset parts) buf =
      (joined (parts.map (WritePart.content owner all))).map fun b =>
        Buffer.spliced buf (start + offset) b := by
  induction parts generalizing buf offset with
  | nil => simp [Run.offsets, writeBlock, joined, Except.map]
  | cons part rest ih =>
    have simple := elementary part (by simp)
    have reserved : part.field.reserve all = part.field.extent :=
      Field.reserve_of_not_dynamic (Field.not_dynamic_of_elementary simple)
    have bound := addressable
    unfold Buffer.IsAddressable at bound
    simp only [List.map_cons, List.sum_cons] at room
    have plain := elementaryBytes_eq simple owner all part.slot
    simp only [Run.offsets, List.map_cons, WritePart.content]
    cases encoded : part.field.encode owner all part.slot with
    | error fault => rw [writeBlock_cons_error (plain.trans encoded), joined, Except.map]
    | ok data =>
      have size := Field.length_encode (sound part (by simp)).shape
        (sound part (by simp)).encodesExtent encoded
      have written : writeAt owner part.field.name buf (Word.add start offset) data =
          .ok (Buffer.spliced buf (start + offset) data) := by
        rw [Word.add_natCast (by omega)]
        exact writeAt_eq (by omega)
      have behind : Word.add offset part.field.width = ((offset + data.length : Nat) : Int) := by
        rw [Field.width_of_elementary simple, ← reserved, ← size]
        exact Word.add_natCast (by omega)
      have kept : (Buffer.spliced buf (start + offset) data).length = buf.length :=
        Buffer.length_spliced (by omega)
      have still : Buffer.IsAddressable (Buffer.spliced buf (start + offset) data) := by
        simpa [Buffer.IsAddressable, kept] using addressable
      have tail := ih (fun other later => elementary other (by simp [later]))
        (fun other later => sound other (by simp [later])) (offset + data.length) still (by omega)
      rw [writeBlock_cons_ok (plain.trans encoded) written, behind, tail, joined]
      cases others : joined (rest.map (WritePart.content owner all)) with
      | error fault => rfl
      | ok more =>
        have rest_size := length_joined_contents (fun other later => sound other (by simp [later])) others
        simp only [Except.map]
        rw [← Nat.add_assoc, Buffer.spliced_spliced (by omega)]

section Single

variable {owner name type : String} {slots : List Slot} {size counter least most count : Nat}
  {element : Layout} {slot : Slot} {write : Writer} {width : Int} {offset : Option Int} {buf : Bytes}
  {start : Int}

theorem writeRun_varBytes :
    writeRun owner slots ⟨.single ⟨.primitive name type size (.varBytes counter), slot, write⟩, width,
        offset⟩ buf start =
      writeVarBytes owner name size (rawAt slots counter) slot.data buf start := rfl

theorem writeRun_once :
    writeRun owner slots ⟨.single ⟨.nested name .once element, slot, write⟩, width, offset⟩ buf start =
      write buf start := rfl

theorem writeRun_array :
    writeRun owner slots ⟨.single ⟨.nested name (.array count) element, slot, write⟩, width, offset⟩ buf
        start =
      if slot.count != count then .error ⟨owner, name, .arrayCount slot.count count⟩
      else write buf start := rfl

theorem writeRun_group :
    writeRun owner slots ⟨.single ⟨.nested name (.group counter least most) element, slot, write⟩, width,
        offset⟩ buf start =
      if most < (rawAt slots counter).toNat || (rawAt slots counter).toNat < least then
        .error ⟨owner, name, .counterOutside (rawAt slots counter) least most⟩
      else if slot.count != (rawAt slots counter).toNat then
        .error ⟨owner, name, .groupCount slot.count (rawAt slots counter)⟩
      else write buf start := rfl

end Single

private theorem writeVarBytes_yields {owner name type : String} {size counter : Nat} {all : List Slot}
    {data : Bytes} :
    Writer.Yields (writeVarBytes owner name size (rawAt all counter) data)
      ((Field.primitive name type size (.varBytes counter)).reserve all)
      ((Field.primitive name type size (.varBytes counter)).encode owner all (.bytes data)) := by
  intro buf p addressable room
  simp only [Field.reserve] at room
  simp only [writeVarBytes, Field.encode, Slot.data]
  by_cases above : size < (rawAt all counter).toNat
  · simp only [above, if_true, Except.map]
  · by_cases more : (rawAt all counter).toNat < data.length
    · simp only [above, more, if_true, if_false, Except.map]
    · have filled : (Buffer.zeroFilled (rawAt all counter).toNat data).length =
          (rawAt all counter).toNat := Buffer.length_zeroFilled (by omega)
      have inside : p + (rawAt all counter).toNat ≤ buf.length := by omega
      have bound := addressable
      unfold Buffer.IsAddressable at bound
      rw [Buffer.isShort_eq_false addressable inside, writeAt_eq (by omega),
        Word.add_natCast (by omega)]
      simp only [above, more, Bool.false_eq_true, if_false, Except.map, filled]

private theorem writeItems_yields {element : Layout} {items : List (List Slot)}
    (below : ∀ slots, element.Admits slots →
      Writer.Yields (element.write slots) element.extent (element.encode slots))
    (sized : element.EncodesExtent) (shape : ∀ item ∈ items, element.Admits item) :
    Writer.Yields (writeInTurn (items.map element.write)) (items.length * element.extent)
      (joined (items.map element.encode)) := by
  have each : List.Forall₂ (fun write content => Writer.Yields write element.extent content ∧
      ∀ b, content = .ok b → b.length = element.extent) (items.map element.write)
      (items.map element.encode) := by
    rw [List.forall₂_map_left_iff, List.forall₂_map_right_iff, List.forall₂_same]
    intro item member
    exact ⟨below item (shape item member), fun b encoded => sized item b (shape item member) encoded⟩
  have whole := writeInTurn_yields each
  rwa [List.length_map] at whole

/-- The bytes set aside for the members of a static run are its extent. -/
theorem Run.IsCut.reserve_eq_extent {α : Type} {field : α → Field} {run : Run α}
    (cut : run.IsCut fun a => (field a).isElementary) (all : List Slot)
    (constant : run.isDynamic field = false) :
    (run.members.map fun a => (field a).reserve all).sum = run.extent field := by
  rw [Run.extent]
  congr 1
  refine List.map_congr_left ?_
  intro a member
  exact Field.reserve_of_not_dynamic (cut.not_dynamic constant member)

private theorem writeRun_block_yields (owner : String) (all : List Slot) {first : WritePart} {rest : List WritePart}
    (cut : (Run.block first rest).IsCut fun part => part.field.isElementary)
    (sound : ∀ part ∈ first :: rest, part.IsSound) (offset : Option Int) :
    Writer.Yields
      (writeRun owner all ⟨.block first rest, (Run.block first rest).width WritePart.field, offset⟩)
      ((first :: rest).map fun part => part.field.reserve all).sum
      (joined ((first :: rest).map (WritePart.content owner all))) := by
  intro buf p addressable room
  have bound := addressable
  unfold Buffer.IsAddressable at bound
  have constant := cut.block_not_dynamic
  have reserved : ((first :: rest).map fun part => part.field.reserve all).sum =
      (Run.block first rest).extent WritePart.field := cut.reserve_eq_extent all constant
  have wrapped : (Run.block first rest).width WritePart.field =
      Word.wrap ((Run.block first rest).extent WritePart.field) :=
    Run.width_eq (fun part member => (sound part member).field) constant
  have exact_width : (Run.block first rest).width WritePart.field =
      ((Run.block first rest).extent WritePart.field : Int) := by
    rw [wrapped]
    exact Word.wrap_natCast (by omega)
  have block := writeBlock_eq owner cut sound 0 addressable room
  simp only [Int.natCast_zero, Nat.add_zero] at block
  simp only [writeRun, exact_width]
  rw [Buffer.isShort_eq_false addressable (by omega), Word.add_natCast (by omega)]
  simp only [Bool.false_eq_true, if_false]
  rw [block]
  cases content : joined ((first :: rest).map (WritePart.content owner all)) with
  | error fault => rfl
  | ok b =>
    have total : b.length = (Run.block first rest).extent WritePart.field :=
      (length_joined_contents sound content).trans reserved
    simp only [Except.map, total]

theorem writeRun_yields (owner : String) (all : List Slot) {placed : PlacedRun WritePart}
    (cut : placed.run.IsCut fun part => part.field.isElementary)
    (sound : ∀ part ∈ placed.run.members, part.IsSound)
    (width : placed.width = placed.run.width WritePart.field) :
    Writer.Yields (writeRun owner all placed)
      (placed.run.members.map fun part => part.field.reserve all).sum
      (joined (placed.run.members.map (WritePart.content owner all))) := by
  obtain ⟨run, runWidth, offset⟩ := placed
  intro buf p addressable room
  cases run with
  | block first rest =>
    change runWidth = (Run.block first rest).width WritePart.field at width
    subst width
    exact writeRun_block_yields owner all cut sound offset buf p addressable room
  | single part =>
    have known := sound part (by simp [Run.members])
    obtain ⟨f, s, write⟩ := part
    obtain ⟨field, shape, written, below⟩ := known
    simp only at written field shape below
    subst written
    simp only [Run.members, List.map_cons, List.map_nil, List.sum_cons, List.sum_nil, Nat.add_zero,
      joined_singleton, WritePart.content] at room ⊢
    cases f with
    | primitive name type size kind =>
      cases kind with
      | varBytes counter =>
        cases s with
        | bytes data =>
          rw [writeRun_varBytes]
          exact writeVarBytes_yields buf p addressable room
        | pad | int | struct | elems => simp [Field.Admits] at shape
      | int | pad | bytes => simp [Run.IsCut, Field.isElementary] at cut
    | nested name repetition element =>
      have sized := field.encodesExtent element rfl
      cases repetition with
      | once =>
        cases s with
        | struct slots =>
          simp only [Field.Admits] at shape
          rw [writeRun_once]
          simp only [Field.writeNested, Field.encode]
          exact below element rfl slots shape buf p addressable room
        | pad | int | bytes | elems => simp [Field.Admits] at shape
      | array count =>
        cases s with
        | elems items =>
          simp only [Field.Admits] at shape
          simp only [Field.reserve, Field.extent] at room
          rw [writeRun_array]
          simp only [Field.writeNested, Field.encode, Slot.count]
          by_cases number : items.length = count
          · simp only [number, bne_self_eq_false, Bool.false_eq_true, if_false]
            exact writeItems_yields (below element rfl) sized shape buf p addressable
              (by rw [number]; exact room)
          · simp only [bne_iff_ne, ne_eq, number, not_false_eq_true, if_true, Except.map]
        | pad | int | bytes | struct => simp [Field.Admits] at shape
      | group counter least most =>
        cases s with
        | elems items =>
          simp only [Field.Admits] at shape
          simp only [Field.reserve] at room
          rw [writeRun_group]
          simp only [Field.writeNested, Field.encode, Slot.count]
          by_cases outside : (decide (most < (rawAt all counter).toNat) ||
              decide ((rawAt all counter).toNat < least)) = true
          · simp only [outside, if_true, Except.map]
          · by_cases number : items.length = (rawAt all counter).toNat
            · simp only [outside, number, bne_self_eq_false, Bool.false_eq_true, if_false]
              simp only [Bool.or_eq_true, decide_eq_true_eq, not_or] at outside
              exact writeItems_yields (below element rfl) sized shape buf p addressable
                (by rw [number]; rwa [Nat.min_eq_left (by omega)] at room)
            · simp only [outside, bne_iff_ne, ne_eq, number, not_false_eq_true, Bool.false_eq_true,
                if_true, if_false, Except.map]
        | pad | int | bytes | struct => simp [Field.Admits] at shape

/-- A run whose start, if known, is the position reached so far is written there. -/
theorem writeRuns_cons {owner : String} {slots : List Slot} {base pos : Int} {placed : PlacedRun WritePart}
    {rest : List (PlacedRun WritePart)} {buf : Bytes}
    (known : ∀ offset, placed.start = some offset → Word.add base offset = pos) :
    writeRuns owner slots base (placed :: rest) buf pos =
      match writeRun owner slots placed buf pos with
      | .error fault => .error fault
      | .ok (buf, pos) => writeRuns owner slots base rest buf pos := by
  obtain ⟨run, width, start⟩ := placed
  cases start with
  | none => rfl
  | some offset =>
    obtain rfl : Word.add base offset = pos := known offset rfl
    rfl

/-- Runs in place are written as the encodings of all members in a row. As long as a start is known, it
is the position behind the run before. -/
private theorem writeRuns_place (owner : String) (all : List Slot) {runs : List (Run WritePart)}
    (cut : ∀ run ∈ runs, run.IsCut fun part => part.field.isElementary)
    (sound : ∀ run ∈ runs, ∀ part ∈ run.members, part.IsSound) {buf : Bytes} {base : Int} {p : Nat}
    {start : Option Int} (addressable : Buffer.IsAddressable buf)
    (known : ∀ offset, start = some offset → Word.add base offset = p)
    (room : p + ((runs.flatMap Run.members).map fun part => part.field.reserve all).sum ≤ buf.length) :
    writeRuns owner all base (Run.place WritePart.field start runs) buf p =
      (joined ((runs.flatMap Run.members).map (WritePart.content owner all))).map fun b =>
        (Buffer.spliced buf p b, ((p + b.length : Nat) : Int)) := by
  induction runs generalizing buf p start with
  | nil => simp [Run.place, writeRuns, joined, Except.map]
  | cons run rest ih =>
    have bound := addressable
    unfold Buffer.IsAddressable at bound
    simp only [List.flatMap_cons, List.map_append, List.sum_append_nat] at room
    have cutHere := cut run (by simp)
    have soundHere := sound run (by simp)
    have width : (PlacedRun.mk run (run.width WritePart.field) start).width =
        run.width WritePart.field := rfl
    have first := writeRun_yields owner all cutHere soundHere width buf p addressable
      (by simp only; omega)
    simp only [Run.place, List.flatMap_cons, List.map_append, joined_append]
    rw [writeRuns_cons known, first]
    simp only
    cases content : joined (run.members.map (WritePart.content owner all)) with
    | error fault => rfl
    | ok b =>
      have size := length_joined_contents soundHere content
      have kept : (Buffer.spliced buf p b).length = buf.length := Buffer.length_spliced (by omega)
      have still : Buffer.IsAddressable (Buffer.spliced buf p b) := by
        simpa [Buffer.IsAddressable, kept] using addressable
      have behind : run.isDynamic WritePart.field = false →
          ((p + b.length : Nat) : Int) = p + run.extent WritePart.field := by
        intro constant
        rw [size, cutHere.reserve_eq_extent all constant, Int.natCast_add]
      have least : Word.minSigned ≤ 0 := by decide
      have next := Run.add_next_start (fun a inside => (soundHere a inside).field) known behind
        (by omega) (by omega)
      have tail := ih (fun other later => cut other (by simp [later]))
        (fun other later => sound other (by simp [later])) still next (by omega)
      simp only [Except.map] at tail ⊢
      rw [tail]
      cases others : joined ((rest.flatMap Run.members).map (WritePart.content owner all)) with
      | error fault => rfl
      | ok more =>
        have rest_size := length_joined_contents
          (by
            intro part member
            obtain ⟨other, later, inside⟩ := List.mem_flatMap.mp member
            exact sound other (by simp [later]) part inside) others
        simp only
        rw [Buffer.spliced_spliced (by omega)]
        simp [Nat.add_assoc]

theorem map_field_writeParts {fields : List Field} {slots : List Slot}
    (same : fields.length = slots.length) : (writeParts fields slots).map WritePart.field = fields := by
  induction fields generalizing slots with
  | nil => simp [writeParts]
  | cons f rest ih =>
    cases slots with
    | nil => simp at same
    | cons s ss =>
      have tail : rest.length = ss.length := by simpa using same
      simp [writeParts, ih tail]

private theorem map_content_writeParts (owner : String) (all : List Slot) (fields : List Field)
    (slots : List Slot) :
    (writeParts fields slots).map (WritePart.content owner all) = encodings owner all fields slots := by
  induction fields generalizing slots with
  | nil => simp [writeParts, encodings]
  | cons f rest ih =>
    cases slots with
    | nil => simp [writeParts, encodings]
    | cons s ss => simp [writeParts, encodings, WritePart.content, ih]

theorem isSound_of_mem_writeParts {fields : List Field} {slots : List Slot}
    (shape : List.Forall₂ Field.Admits fields slots) (field : ∀ f ∈ fields, f.Sound)
    (below : ∀ f ∈ fields, ∀ element, f.element? = some element → ∀ slots, element.Admits slots →
      Writer.Yields (element.write slots) element.extent (element.encode slots)) :
    ∀ part ∈ writeParts fields slots, part.IsSound := by
  induction shape with
  | nil => simp [writeParts]
  | @cons f s fs ss first rest ih =>
    intro part member
    simp only [writeParts, List.mem_cons] at member
    rcases member with rfl | later
    · exact ⟨field f (by simp), first, rfl, below f (by simp)⟩
    · exact ih (fun g inside => field g (by simp [inside]))
        (fun g inside => below g (by simp [inside])) part later

private theorem write_yields_of_below {l : Layout} (sound : l.Sound) {slots : List Slot}
    (shape : l.Admits slots)
    (below : ∀ f ∈ l.fields, ∀ element, f.element? = some element → ∀ slots, element.Admits slots →
      Writer.Yields (element.write slots) element.extent (element.encode slots)) :
    Writer.Yields (l.write slots) (l.reserve slots) (l.encode slots) := by
  obtain ⟨name, message, size, fields⟩ := l
  intro buf p addressable room
  have parts := isSound_of_mem_writeParts (Layout.admits_iff.mp shape)
    (fun f member => sound.field member) below
  simp only [Layout.fields] at parts
  have members := Run.flatMap_members_partition (fun part : WritePart => part.field.isElementary)
    (writeParts fields slots)
  have reserved : ((writeParts fields slots).map fun part => part.field.reserve slots).sum =
      (Layout.mk name message size fields).reserve slots := by
    have names := map_field_writeParts shape.length_eq
    simp only [Layout.fields] at names
    conv_rhs => rw [Layout.reserve, Layout.fields, ← names, List.map_map]
    rfl
  have known : ∀ offset, some (0 : Int) = some offset → Word.add p offset = p := by
    intro offset zero
    cases zero
    unfold Buffer.IsAddressable at addressable
    exact Word.add_natCast (b := 0) (by omega)
  have whole := writeRuns_place name slots
    (Run.isCut_of_mem_partition (fun part : WritePart => part.field.isElementary) (writeParts fields slots))
    (fun run member part inside => parts part (members ▸ List.mem_flatMap.mpr ⟨run, member, inside⟩))
    addressable known (by rw [members, reserved]; exact room)
  rw [members, map_content_writeParts] at whole
  simp only [Layout.write, Layout.encode]
  exact whole

theorem Layout.Sound.write_yields {l : Layout} (sound : l.Sound) {slots : List Slot}
    (shape : l.Admits slots) : Writer.Yields (l.write slots) (l.reserve slots) (l.encode slots) := by
  induction sound generalizing slots with
  | @mk name message size fields widths counters sized static elements ih =>
    refine write_yields_of_below (.mk widths counters sized static elements) shape ?_
    intro f member element nested inner inside
    rw [← (elements f member element nested).reserve_eq (static f member element nested) inner]
    exact ih f member element nested inside

end TradeWire

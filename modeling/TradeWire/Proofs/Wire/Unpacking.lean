import TradeWire.Proofs.Wire.Decoding
import TradeWire.Proofs.Wire.Reading
import TradeWire.Proofs.Wire.Writing

/-! Reading by runs finds what decoding member by member finds. -/

set_option autoImplicit false
set_option relaxedAutoImplicit false

namespace TradeWire

namespace Buffer

/-- As long as the end of a stretch does not wrap, the codec's test is the exact one. -/
theorem isShort_eq_not_isInside (length : Nat) {count : Nat} {start : Int} (low : Word.minSigned ≤ start)
    (high : start + count ≤ Word.maxSigned) : isShort length start count = !isInside length start count := by
  have exact_sum : Word.add start count = start + count := Word.add_eq (by omega) high
  simp only [isShort, isInside, exact_sum]
  by_cases negative : start < 0
  · have outside : ¬0 ≤ start := by omega
    simp [negative, outside]
  · have nonnegative : 0 ≤ start := by omega
    by_cases beyond : (length : Int) < start + count
    · have outside : ¬start + (count : Int) ≤ length := by omega
      simp [beyond, outside]
    · have within : start + (count : Int) ≤ length := by omega
      simp [negative, beyond, nonnegative, within]

end Buffer

/-- As long as positions stay machine numbers for `room` more bytes, the reader finds what decoding
finds, and fails when decoding fails. -/
def Reader.Follows {α : Type} (read : Reader α) (room : Nat)
    (decode : Bytes → Int → Option (α × Int)) : Prop :=
  ∀ (buf : Bytes) (pos : Int), Word.minSigned ≤ pos → pos + room ≤ Word.maxSigned →
    (read buf pos).toOption = decode buf pos

private theorem toOption_map {ε α β : Type} (g : α → β) (x : Except ε α) :
    (x.map g).toOption = x.toOption.map g := by
  cases x with
  | error fault => rfl
  | ok a => rfl

theorem toOption_readAt {owner field : String} {buf : Bytes} {start count : Int} :
    (readAt owner field buf start count).toOption = Buffer.slice? buf start count := by
  simp only [readAt]
  cases Buffer.slice? buf start count with
  | none => rfl
  | some data => rfl

private theorem readInTurn_follows {element : Layout} {read : Reader (List Slot)}
    (each : Reader.Follows read element.extent element.decode) (sized : element.DecodesExtent)
    (count : Nat) :
    Reader.Follows (readInTurn read count) (count * element.extent) (decodeTimes element.decode count) := by
  induction count with
  | zero =>
    intro buf pos _ _
    rfl
  | succ count ih =>
    intro buf pos low high
    rw [Nat.add_mul, Nat.one_mul, Int.natCast_add] at high
    have first := each buf pos low (by omega)
    simp only [readInTurn, decodeTimes]
    rw [← first]
    cases here : read buf pos with
    | error fault => rfl
    | ok out =>
      obtain ⟨item, next⟩ := out
      rw [here] at first
      have behind := sized buf pos item next first.symm
      have others := ih buf next (by omega) (by omega)
      simp only [Except.toOption]
      rw [← others]
      cases readInTurn read count buf next with
      | error fault => rfl
      | ok rest => rfl

private theorem Field.inside_of_decode {f : Field} (elementary : f.isElementary = true) {earlier : List Slot}
    {buf : Bytes} {pos : Int} {s : Slot} {stop : Int}
    (decoded : f.decode earlier buf pos = some (s, stop)) :
    0 ≤ pos ∧ pos + f.extent ≤ buf.length ∧ stop = pos + f.extent := by
  cases Field.decodes_of_some decoded with
  | int found | pad found | bytes found =>
    obtain ⟨start, _, within, _⟩ := Buffer.slice?_eq_some.mp found
    exact ⟨start, within, rfl⟩
  | varBytes | once | array | group => simp [Field.isElementary] at elementary

private theorem inside_of_decodeFields {first : Field} {rest : List Field}
    (elementary : ∀ f ∈ first :: rest, f.isElementary = true) {earlier : List Slot} {buf : Bytes}
    {pos : Int} {slots : List Slot} {stop : Int}
    (decoded : decodeFields (first :: rest) earlier buf pos = some (slots, stop)) :
    0 ≤ pos ∧ pos + (((first :: rest).map Field.extent).sum : Nat) ≤ buf.length := by
  induction rest generalizing first earlier pos with
  | nil =>
    obtain ⟨s, next, here, _⟩ := decodeFields_cons_eq_some.mp decoded
    have inside := Field.inside_of_decode (elementary first (by simp)) here
    simpa using ⟨inside.1, inside.2.1⟩
  | cons second rest ih =>
    obtain ⟨s, next, here, tail⟩ := decodeFields_cons_eq_some.mp decoded
    have inside := Field.inside_of_decode (elementary first (by simp)) here
    have others := ih (fun f later => elementary f (List.mem_cons_of_mem _ later)) tail
    rw [List.map_cons, List.sum_cons, Int.natCast_add]
    omega

private theorem Field.decode_eq_readElementary {f : Field} (elementary : f.isElementary = true) (owner : String)
    (earlier : List Slot) {buf : Bytes} {pos : Int} (start : 0 ≤ pos)
    (within : pos + f.extent ≤ buf.length) :
    ∃ s, readElementary owner buf pos f = .ok s ∧
      f.decode earlier buf pos = some (s, pos + f.extent) := by
  match f with
  | .primitive name _ size (.int form) =>
    have found := Buffer.slice?_eq_some.mpr ⟨start, Int.natCast_nonneg size, within, rfl⟩
    refine ⟨intSlot size form ((buf.drop pos.toNat).take (size : Int).toNat), ?_, ?_⟩
    · simp only [readElementary, readAt, found, Except.map]
    · simp only [Field.decode, found, Option.map_some, Field.extent]
  | .primitive name _ size (.bytes _) =>
    have found := Buffer.slice?_eq_some.mpr ⟨start, Int.natCast_nonneg size, within, rfl⟩
    refine ⟨.bytes ((buf.drop pos.toNat).take (size : Int).toNat), ?_, ?_⟩
    · simp only [readElementary, readAt, found, Except.map]
    · simp only [Field.decode, found, Option.map_some, Field.extent]
  | .primitive _ _ size .pad =>
    have found := Buffer.slice?_eq_some.mpr ⟨start, Int.natCast_nonneg size, within, rfl⟩
    refine ⟨.pad, rfl, ?_⟩
    simp only [Field.decode, found, Option.map_some, Field.extent]
  | .primitive _ _ _ (.varBytes _) | .nested .. => simp [Field.isElementary] at elementary

/-- The members of a block inside the buffer, each at its distance from the start, are what decoding
finds one behind the other. -/
theorem readBlock_eq (owner : String) {parts : List ReadPart} {buf : Bytes} {start : Int} (offset : Nat)
    (elementary : ∀ part ∈ parts, part.field.isElementary = true) (earlier : List Slot)
    (nonnegative : 0 ≤ start)
    (high : start + offset + ((parts.map fun part => part.field.extent).sum : Nat) ≤ Word.maxSigned)
    (within : start + offset + ((parts.map fun part => part.field.extent).sum : Nat) ≤ buf.length) :
    ∃ slots, readBlock owner buf start (Run.offsets ReadPart.field offset parts) = .ok slots ∧
      decodeFields (parts.map ReadPart.field) earlier buf (start + offset) =
        some (earlier ++ slots,
          start + offset + ((parts.map fun part => part.field.extent).sum : Nat)) := by
  induction parts generalizing offset earlier with
  | nil => exact ⟨[], by simp [Run.offsets, readBlock], by simp [decodeFields]⟩
  | cons part rest ih =>
    have simple := elementary part (by simp)
    simp only [List.map_cons, List.sum_cons, Int.natCast_add] at high within
    have least : Word.minSigned ≤ 0 := by decide
    have behind_start : 0 ≤ start + (offset : Int) := by omega
    have before_end : start + offset + (part.field.extent : Int) ≤ buf.length := by omega
    obtain ⟨s, read, decoded⟩ :=
      Field.decode_eq_readElementary simple owner earlier behind_start before_end
    have place : Word.add start offset = start + offset := Word.add_eq (by omega) (by omega)
    have behind : Word.add offset part.field.width = ((offset + part.field.extent : Nat) : Int) := by
      rw [Field.width_of_elementary simple]
      exact Word.add_natCast (by omega)
    obtain ⟨slots, others, tail⟩ := ih (offset + part.field.extent)
      (fun other later => elementary other (by simp [later])) (earlier ++ [s])
      (by rw [Int.natCast_add]; omega) (by rw [Int.natCast_add]; omega)
    refine ⟨s :: slots, ?_, ?_⟩
    · simp only [Run.offsets, readBlock, behind]
      rw [place, read, others]
    · refine decodeFields_cons_eq_some.mpr ⟨s, _, decoded, ?_⟩
      rw [Int.add_assoc, ← Int.natCast_add]
      rw [tail]
      simp [Int.add_assoc]

/-- What the reader knows of a part: its field is sound and it reads the elements of the field. -/
structure ReadPart.IsSound (part : ReadPart) : Prop where
  field : part.field.Sound
  read : part.read = part.field.readNested
  below : ∀ element, part.field.element? = some element →
    Reader.Follows element.read element.extent element.decode

private theorem ReadPart.IsSound.decodesExtent {part : ReadPart} (sound : part.IsSound) (element : Layout)
    (nested : part.field.element? = some element) : element.DecodesExtent :=
  sound.field.decodesExtent element nested

private theorem readNested_many {name : String} {repetition : Repetition} {element : Layout}
    (many : repetition ≠ .once) (count : Nat) (buf : Bytes) (pos : Int) :
    (Field.nested name repetition element).readNested count buf pos =
      (readInTurn element.read count buf pos).map fun (items, stop) => (.elems items, stop) := by
  cases repetition with
  | once => exact absurd rfl many
  | array | group => rfl

section Block

variable {first : ReadPart} {rest : List ReadPart} {buf : Bytes} {pos : Int}

theorem inside_of_decode_block (cut : (Run.block first rest).IsCut fun part => part.field.isElementary)
    {earlier all : List Slot} {stop : Int}
    (decoded : decodeFields ((first :: rest).map ReadPart.field) earlier buf pos = some (all, stop)) :
    0 ≤ pos ∧ pos + ((Run.block first rest).extent ReadPart.field : Nat) ≤ buf.length := by
  have inside := inside_of_decodeFields
    (by
      intro f member
      obtain ⟨part, listed, rfl⟩ := List.mem_map.mp (by rwa [List.map_cons])
      exact cut part listed) decoded
  simpa [Run.extent, Run.members, Function.comp_def] using inside

/-- A block inside the buffer is read as its members are decoded in a row. -/
theorem readRun_block_eq (owner : String) (earlier : List Slot)
    (cut : (Run.block first rest).IsCut fun part => part.field.isElementary)
    (fields : ∀ part ∈ first :: rest, part.field.Sound) (offset : Option Int) (start : 0 ≤ pos)
    (high : pos + ((Run.block first rest).extent ReadPart.field : Nat) ≤ Word.maxSigned)
    (within : pos + ((Run.block first rest).extent ReadPart.field : Nat) ≤ buf.length) :
    ∃ slots,
      readRun owner earlier ⟨.block first rest, (Run.block first rest).width ReadPart.field, offset⟩ buf pos =
          .ok (slots, pos + ((Run.block first rest).extent ReadPart.field : Nat)) ∧
        decodeFields ((first :: rest).map ReadPart.field) earlier buf pos =
          some (earlier ++ slots, pos + ((Run.block first rest).extent ReadPart.field : Nat)) := by
  have least : Word.minSigned ≤ 0 := by decide
  -- a block that lies in the buffer has a width that did not wrap
  have width : (Run.block first rest).width ReadPart.field =
      ((Run.block first rest).extent ReadPart.field : Int) := by
    rw [Run.width_eq fields cut.block_not_dynamic]
    exact Word.wrap_natCast (by omega)
  have present : Buffer.isShort buf.length pos ((Run.block first rest).extent ReadPart.field : Nat) =
      false := by
    rw [Buffer.isShort_eq_not_isInside buf.length (by omega) high]
    simp [Buffer.isInside, start, within]
  have stop : Word.add pos ((Run.block first rest).extent ReadPart.field : Nat) =
      pos + ((Run.block first rest).extent ReadPart.field : Nat) := Word.add_eq (by omega) high
  obtain ⟨slots, read, decoded⟩ := readBlock_eq owner 0 cut earlier start
    (by simpa [Run.extent, Run.members] using high) (by simpa [Run.extent, Run.members] using within)
  simp only [Int.natCast_zero, Int.add_zero] at read decoded
  refine ⟨slots, ?_, decoded⟩
  simp only [readRun, width, present, Bool.false_eq_true, if_false, read, Except.map, stop]

private theorem readRun_block_follows (owner : String) (earlier : List Slot)
    (cut : (Run.block first rest).IsCut fun part => part.field.isElementary)
    (fields : ∀ part ∈ first :: rest, part.field.Sound) (offset : Option Int) (buf : Bytes)
    (low : Word.minSigned ≤ pos)
    (high : pos + ((Run.block first rest).extent ReadPart.field : Nat) ≤ Word.maxSigned) :
    ((readRun owner earlier ⟨.block first rest, (Run.block first rest).width ReadPart.field, offset⟩ buf
        pos).toOption.map fun (slots, stop) => (earlier ++ slots, stop)) =
      decodeFields ((first :: rest).map ReadPart.field) earlier buf pos := by
  by_cases inside : 0 ≤ pos ∧ pos + ((Run.block first rest).extent ReadPart.field : Nat) ≤ buf.length
  · obtain ⟨slots, read, decoded⟩ := readRun_block_eq owner earlier cut fields offset inside.1 high inside.2
    rw [read, decoded]
    rfl
  · -- a negative position is refused whatever the width, and the width is exact otherwise
    have absent : Buffer.isShort buf.length pos ((Run.block first rest).width ReadPart.field) = true := by
      by_cases negative : pos < 0
      · simp [Buffer.isShort, negative]
      · have exact_width : (Run.block first rest).width ReadPart.field =
            ((Run.block first rest).extent ReadPart.field : Int) := by
          rw [Run.width_eq fields cut.block_not_dynamic]
          exact Word.wrap_natCast (by omega)
        rw [exact_width, Buffer.isShort_eq_not_isInside buf.length low high]
        have beyond : ¬pos + ((Run.block first rest).extent ReadPart.field : Int) ≤ buf.length := by
          intro within
          exact inside ⟨by omega, within⟩
        simp [Buffer.isInside, beyond]
    have missing : decodeFields ((first :: rest).map ReadPart.field) earlier buf pos = none := by
      cases decoded : decodeFields ((first :: rest).map ReadPart.field) earlier buf pos with
      | none => rfl
      | some out => exact absurd (inside_of_decode_block cut decoded) inside
    rw [missing]
    simp only [readRun, absent, if_true, Except.toOption, Option.map_none]

end Block

private theorem readRun_varBytes_follows (owner : String) {earlier : List Slot} {name type : String}
    {size counter : Nat} {reader : Nat → Reader Slot} {width : Int} {offset : Option Int} (buf : Bytes)
    {pos : Int} (low : Word.minSigned ≤ pos) (high : pos + (size : Nat) ≤ Word.maxSigned) :
    ((readRun owner earlier ⟨.single ⟨.primitive name type size (.varBytes counter), reader⟩, width, offset⟩
        buf pos).toOption.map fun (slots, stop) => (earlier ++ slots, stop)) =
      ((Field.primitive name type size (.varBytes counter)).decode earlier buf pos).map
        fun (slot, stop) => (earlier ++ [slot], stop) := by
  rw [readRun_varBytes]
  simp only [Field.decode]
  by_cases above : size < (rawAt earlier counter).toNat
  · simp only [above, if_true, Except.toOption, Option.map_none]
  · have room : pos + ((rawAt earlier counter).toNat : Int) ≤ Word.maxSigned := by omega
    have short := Buffer.isShort_eq_not_isInside buf.length low room
    have stop : Word.add pos ((rawAt earlier counter).toNat : Int) =
        pos + ((rawAt earlier counter).toNat : Int) := Word.add_eq (by omega) (by omega)
    simp only [above, if_false]
    by_cases inside : Buffer.isInside buf.length pos ((rawAt earlier counter).toNat : Int) = true
    · simp only [short, inside, Bool.not_true, Bool.false_eq_true, if_false, toOption_map,
        toOption_readAt, stop, Option.map_map]
      rfl
    · have absent : Buffer.slice? buf pos ((rawAt earlier counter).toNat : Int) = none := by
        simp [Buffer.slice?, inside]
      simp [short, inside, absent, Except.toOption]

private theorem readRun_follows (owner : String) (earlier : List Slot) {placed : PlacedRun ReadPart}
    (cut : placed.run.IsCut fun part => part.field.isElementary)
    (sound : ∀ part ∈ placed.run.members, part.IsSound)
    (width : placed.width = placed.run.width ReadPart.field) (buf : Bytes) {pos : Int}
    (low : Word.minSigned ≤ pos)
    (high : pos + ((placed.run.members.map fun part => part.field.capacity).sum : Nat) ≤
      Word.maxSigned) :
    ((readRun owner earlier placed buf pos).toOption.map fun (slots, stop) => (earlier ++ slots, stop)) =
      decodeFields (placed.run.members.map ReadPart.field) earlier buf pos := by
  obtain ⟨run, runWidth, offset⟩ := placed
  cases run with
  | block first rest =>
    change runWidth = (Run.block first rest).width ReadPart.field at width
    subst width
    have capacity : ((first :: rest).map fun part => part.field.capacity).sum =
        (Run.block first rest).extent ReadPart.field := cut.capacity_eq_extent cut.block_not_dynamic
    change pos + (((first :: rest).map fun part => part.field.capacity).sum : Nat) ≤ Word.maxSigned at high
    rw [capacity] at high
    exact readRun_block_follows owner earlier cut (fun part member => (sound part member).field) offset buf
      low high
  | single part =>
    have known := sound part (by simp [Run.members])
    obtain ⟨f, read⟩ := part
    obtain ⟨field, reads, below⟩ := known
    simp only at field reads below
    subst reads
    simp only [Run.members, List.map_cons, List.map_nil, List.sum_cons, List.sum_nil, Nat.add_zero]
      at high ⊢
    rw [decodeFields_singleton]
    cases f with
    | primitive name type size kind =>
      cases kind with
      | varBytes counter =>
        simp only [Field.capacity] at high
        exact readRun_varBytes_follows owner buf low high
      | int | pad | bytes => simp [Run.IsCut, Field.isElementary] at cut
    | nested name repetition element =>
      have sized := field.decodesExtent element rfl
      have follows := below element rfl
      cases repetition with
      | once =>
        simp only [Field.capacity, Field.extent] at high
        rw [readRun_once]
        simp only [Field.readNested, Field.decode, toOption_map, Option.map_map]
        rw [follows buf pos low high]
        rfl
      | array count =>
        simp only [Field.capacity, Field.extent] at high
        rw [readRun_array, readNested_many (by simp)]
        simp only [Field.decode, toOption_map, Option.map_map]
        rw [readInTurn_follows follows sized count buf pos low high]
        rfl
      | group counter least most =>
        simp only [Field.capacity] at high
        rw [readRun_group, readNested_many (by simp)]
        simp only [Field.decode]
        by_cases above : most < (rawAt earlier counter).toNat
        · simp only [above, if_true, Except.toOption, Option.map_none]
        · have fewer := Nat.mul_le_mul_right element.extent (Nat.not_lt.mp above)
          simp only [above, if_false, toOption_map, Option.map_map]
          rw [readInTurn_follows follows sized _ buf pos low (by omega)]
          rfl

/-- A run whose start, if known, is the position reached so far is read there. -/
theorem readRuns_cons {owner : String} {earlier : List Slot} {base pos : Int} {placed : PlacedRun ReadPart}
    {rest : List (PlacedRun ReadPart)} {buf : Bytes}
    (known : ∀ offset, placed.start = some offset → Word.add base offset = pos) :
    readRuns owner base earlier (placed :: rest) buf pos =
      match readRun owner earlier placed buf pos with
      | .error fault => .error fault
      | .ok (slots, pos) => readRuns owner base (earlier ++ slots) rest buf pos := by
  obtain ⟨run, width, start⟩ := placed
  cases start with
  | none => rfl
  | some offset =>
    obtain rfl : Word.add base offset = pos := known offset rfl
    rfl

private theorem readRuns_place (owner : String) {runs : List (Run ReadPart)}
    (cut : ∀ run ∈ runs, run.IsCut fun part => part.field.isElementary)
    (sound : ∀ run ∈ runs, ∀ part ∈ run.members, part.IsSound) (buf : Bytes) {base pos : Int}
    {start : Option Int} (earlier : List Slot)
    (known : ∀ offset, start = some offset → Word.add base offset = pos) (low : Word.minSigned ≤ pos)
    (high : pos + (((runs.flatMap Run.members).map fun part => part.field.capacity).sum : Nat) ≤
      Word.maxSigned) :
    (readRuns owner base earlier (Run.place ReadPart.field start runs) buf pos).toOption =
      decodeFields ((runs.flatMap Run.members).map ReadPart.field) earlier buf pos := by
  induction runs generalizing pos start earlier with
  | nil => simp [Run.place, readRuns, decodeFields, Except.toOption]
  | cons run rest ih =>
    simp only [List.flatMap_cons, List.map_append, List.sum_append_nat, Int.natCast_add] at high
    have soundHere := sound run (by simp)
    have width : (PlacedRun.mk run (run.width ReadPart.field) start).width =
        run.width ReadPart.field := rfl
    have first := readRun_follows owner earlier (cut run (by simp)) soundHere width buf low
      (by simp only; omega)
    simp only at first
    simp only [Run.place, List.flatMap_cons, List.map_append, decodeFields_append]
    rw [readRuns_cons known, ← first]
    cases read : readRun owner earlier ⟨run, run.width ReadPart.field, start⟩ buf pos with
    | error fault => rfl
    | ok out =>
      obtain ⟨slots, stop⟩ := out
      simp only [read, Except.toOption, Option.map_some] at first
      have below : ∀ f ∈ run.members.map ReadPart.field, ∀ element, f.element? = some element →
          element.DecodesExtent := by
        intro f member
        obtain ⟨part, inside, rfl⟩ := List.mem_map.mp member
        exact (soundHere part inside).decodesExtent
      have bounds := decodeFields_stop_le below first.symm
      simp only [List.map_map, Function.comp_def] at bounds
      have behind : run.isDynamic ReadPart.field = false → stop = pos + run.extent ReadPart.field := by
        intro constant
        have total := decodeFields_stop_of_not_dynamic below
          (by
            intro f member
            obtain ⟨part, inside, rfl⟩ := List.mem_map.mp member
            exact (cut run (by simp)).not_dynamic constant inside) first.symm
        simpa [List.map_map, Function.comp_def, Run.extent] using total
      have next := Run.add_next_start (fun a inside => (soundHere a inside).field) known behind
        (by omega) (by omega)
      exact ih (fun other later => cut other (by simp [later]))
        (fun other later => sound other (by simp [later])) (earlier ++ slots) next (by omega) (by omega)

private theorem read_follows_of_below {l : Layout} (sound : l.Sound)
    (below : ∀ f ∈ l.fields, ∀ element, f.element? = some element →
      Reader.Follows element.read element.extent element.decode) :
    Reader.Follows l.read l.capacity l.decode := by
  obtain ⟨name, message, size, fields⟩ := l
  intro buf pos low high
  have members := Run.flatMap_members_partition (fun part : ReadPart => part.field.isElementary)
    (readParts fields)
  have names : (readParts fields).map ReadPart.field = fields := by
    simp [readParts_eq_map, Function.comp_def]
  have capacity : ((readParts fields).map fun part => part.field.capacity).sum =
      (Layout.mk name message size fields).capacity := by
    conv_rhs => rw [Layout.capacity, Layout.fields, ← names, List.map_map]
    rfl
  have known : ∀ offset, some (0 : Int) = some offset → Word.add pos offset = pos := by
    intro offset zero
    cases zero
    exact (Word.add_eq (by omega) (by omega)).trans (Int.add_zero pos)
  have whole := readRuns_place name
    (Run.isCut_of_mem_partition (fun part : ReadPart => part.field.isElementary) (readParts fields))
    (by
      intro run member part inside
      have listed : part ∈ readParts fields := members ▸ List.mem_flatMap.mpr ⟨run, member, inside⟩
      rw [readParts_eq_map] at listed
      obtain ⟨f, here, rfl⟩ := List.mem_map.mp listed
      exact ⟨sound.field here, rfl, below f here⟩)
    buf [] known low (by rw [members, capacity]; exact high)
  rw [members, names] at whole
  simp only [Layout.read, Layout.decode]
  exact whole

/-- Reading an instance of a sound layout finds what decoding it finds. -/
theorem Layout.Sound.read_follows {l : Layout} (sound : l.Sound) :
    Reader.Follows l.read l.capacity l.decode := by
  induction sound with
  | @mk name message size fields widths counters sized static elements ih =>
    refine read_follows_of_below (.mk widths counters sized static elements) ?_
    intro f member element nested
    rw [← (elements f member element nested).capacity_eq (static f member element nested)]
    exact ih f member element nested

theorem Record.unpack_eq_ok_iff {l : Layout} (sound : l.Sound) {buf : Bytes} {off : Int}
    (low : Word.minSigned ≤ off) (high : off + l.capacity ≤ Word.maxSigned) {r : Record} {stop : Int} :
    Record.unpack l buf off = .ok (r, stop) ↔
      r.layout = l ∧ l.decode buf off = some (r.slots, stop) := by
  have follows := sound.read_follows buf off low high
  rw [← follows]
  obtain ⟨layout, slots⟩ := r
  simp only [Record.unpack]
  cases l.read buf off with
  | error fault => simp [Except.map, Except.toOption]
  | ok out =>
    obtain ⟨found, behind⟩ := out
    simp only [Except.map, Except.toOption, Except.ok.injEq, Option.some.injEq, Prod.mk.injEq,
      Record.mk.injEq, eq_comm (a := layout)]
    exact and_assoc

end TradeWire

import TradeWire.Proofs.Layout.WellFormed
import TradeWire.Proofs.Schema.Templates
import TradeWire.Proofs.Wire.Positions
import TradeWire.Proofs.Wire.Prefixes
import TradeWire.Proofs.Wire.Recovery
import TradeWire.Proofs.Wire.Splicing
import TradeWire.Registry.Basic

/-! Headers looked up in the bytes agree with those of the messages that are read. -/

set_option autoImplicit false
set_option relaxedAutoImplicit false

namespace TradeWire

open Schema

theorem Word.ofInt_toSigned (raw : UInt64) : Word.ofInt (Word.toSigned raw) = raw := by
  have word := UInt64.toNat_lt raw
  have whole : (Word.toSigned raw % 0x10000000000000000).toNat = raw.toNat := by
    simp only [Word.toSigned, Word.wrap, Int.bmod_def]
    omega
  rw [Word.ofInt, whole, UInt64.ofNat_toNat]

theorem Word.toSigned_ofNat {n : Nat} (high : (n : Int) ≤ Word.maxSigned) :
    Word.toSigned (UInt64.ofNat n) = n := by
  have small : (UInt64.ofNat n).toNat = n := by
    unfold Word.maxSigned at high
    rw [UInt64.toNat_ofNat']
    exact Nat.mod_eq_of_lt (by omega)
  rw [Word.toSigned, small]
  exact Word.wrap_natCast high

/-- A field that reads as a number below the signed bound holds the bytes of that number. -/
theorem Word.ofLittleEndian_of_ofField {size n : Nat} {signed : Bool} {data : List UInt8}
    (positive : 0 < size) (width : size ≤ 8) (length : data.length = size)
    (high : (n : Int) ≤ Word.maxSigned) (read : Word.ofField size signed data = UInt64.ofNat n) :
    Word.ofLittleEndian data = n := by
  have low := Word.toNat_ofField_mod positive width signed length
  have range := (Word.fits_iff_isInRange positive width _ signed).mp
    (Word.fits_ofField positive width signed length)
  have value := Word.toSigned_ofNat high
  have small : (UInt64.ofNat n).toNat = n := by
    unfold Word.maxSigned at high
    rw [UInt64.toNat_ofNat']
    exact Nat.mod_eq_of_lt (by omega)
  have bytes : 256 ^ size = 2 ^ (8 * size) := by rw [Nat.pow_mul]
  have narrow : n < 256 ^ size := by
    rw [bytes]
    rw [read] at range
    cases signed with
    | false => simpa [Word.IsInRange, small] using range
    | true =>
      have below : (n : Int) < 2 ^ (8 * size - 1) := value ▸ range.2
      have half : 2 ^ (8 * size - 1) ≤ 2 ^ (8 * size) := Nat.pow_le_pow_right (by decide) (by omega)
      have exact_below : n < 2 ^ (8 * size - 1) := by exact_mod_cast below
      omega
  rw [← low, read, small, Nat.mod_eq_of_lt narrow]

def Record.headerRaw? (r : Record) (which : HeaderLink → Nat) : Option UInt64 :=
  r.layout.message.map fun info => nestedRaw r.slots info.header.field (which info.header)

/-- The stretch of a message that holds an integer of its header, of a certain form. -/
inductive Layout.HeaderAt (l : Layout) (which : HeaderLink → Nat) (place : Stretch) (form : IntForm) : Prop
  | mk {info : MessageInfo} {name field type : String} {header : Layout} {base offset : Int}
      (message : l.message = some info)
      (nested : l.fields[info.header.field]? = some (.nested name .once header))
      (based : l.fieldOffset? info.header.field = some base)
      (held : header.fields[which info.header]? = some (.primitive field type place.width (.int form)))
      (placed : header.fieldOffset? (which info.header) = some offset)
      (sum : place.offset = Word.add base offset) : HeaderAt l which place form

namespace Layout.HeaderAt

variable {l : Layout} {which : HeaderLink → Nat} {place : Stretch} {form : IntForm}

theorem width (at_ : l.HeaderAt which place form) (sound : l.Sound) :
    0 < place.width ∧ place.width ≤ 8 := by
  obtain ⟨message, nested, based, held, placed, sum⟩ := at_
  have outer := sound.field (List.mem_of_getElem? nested)
  exact ((outer.element _ rfl).field (List.mem_of_getElem? held)).width _ _ _ _ rfl

/-- A message that is read has in its header what the bytes hold at the place of the header. -/
theorem raw_of_unpack (at_ : l.HeaderAt which place form) (sound : l.Sound) {buf : Bytes}
    {off stop : Int} {r : Record} (low : Word.minSigned ≤ off) (high : off ≤ Word.maxSigned)
    (unpacked : Record.unpack l buf off = .ok (r, stop)) :
    ∃ data, Buffer.slice? buf (Word.add off place.offset) place.width = some data ∧
      r.headerRaw? which = some (Word.ofField place.width form.isSigned data) := by
  obtain ⟨⟨slots, behind⟩, read, same⟩ := map_eq_ok.mp unpacked
  obtain ⟨rfl, rfl⟩ := Prod.mk.inj same
  obtain ⟨message, nested, based, held, placed, sum⟩ := at_
  rename_i info name field type header base offset
  have outer := sound.field (List.mem_of_getElem? nested)
  -- the header stands at its offset in the message
  obtain ⟨s, there, _⟩ := forall₂_getElem? (Layout.admits_iff.mp (l.admits_of_read buf off _ _ read)) nested
  obtain ⟨inner, last, innerRead, rfl⟩ := sound.isFoundAt_of_read low high read based nested there
  -- and the integer at its offset in the header
  obtain ⟨s, here, _⟩ := forall₂_getElem?
    (Layout.admits_iff.mp (header.admits_of_read buf _ _ _ innerRead)) held
  obtain ⟨data, stretch, rfl⟩ := (outer.element header rfl).isFoundAt_of_read
    (Word.minSigned_le_wrap _) (Word.wrap_le_maxSigned _) innerRead placed held here
  refine ⟨data, ?_, ?_⟩
  · rw [sum, Word.add_add]
    exact stretch
  · simp only [Record.headerRaw?, message, Option.map_some, nestedRaw, there, rawAt, here,
      Option.getD_some]
    rfl

theorem headerRaw?_filled (at_ : l.HeaderAt which place form) {slots : List Slot}
    (shape : l.Admits slots) :
    (Record.mk l (l.filledSlots slots)).headerRaw? which = (Record.mk l slots).headerRaw? which := by
  obtain ⟨message, nested, _, held, _, _⟩ := at_
  simp only [Record.headerRaw?, message, Option.map_some, shape.nestedRaw_filledSlots nested held]

end Layout.HeaderAt

/-- A stretch inside the buffer is read as the number its bytes make up. -/
theorem Stretch.read_of_slice? {field : String} {place : Stretch} {buf data : Bytes} {off : Int}
    (inMemory : Buffer.IsAddressable buf)
    (found : Buffer.slice? buf (Word.add off place.offset) place.width = some data) :
    place.read field buf off = .ok (Word.toSigned (UInt64.ofNat (Word.ofLittleEndian data))) := by
  obtain ⟨start, _, within, _⟩ := Buffer.slice?_eq_some.mp found
  have least : Word.minSigned ≤ 0 := by decide
  unfold Buffer.IsAddressable at inMemory
  have present : Buffer.isShort buf.length (Word.add off place.offset) place.width = false := by
    rw [Buffer.isShort_eq_not_isInside buf.length (by omega) (by omega)]
    simp [Buffer.isInside, start, within]
  simp only [Stretch.read, present, Bool.false_eq_true, if_false, readAt, found, Except.map]

theorem Stretch.slice?_of_read {field : String} {place : Stretch} {buf : Bytes} {off value : Int}
    (read : place.read field buf off = .ok value) :
    ∃ data, Buffer.slice? buf (Word.add off place.offset) place.width = some data ∧
      value = Word.toSigned (UInt64.ofNat (Word.ofLittleEndian data)) := by
  unfold Stretch.read at read
  simp only at read
  split at read
  · cases read
  · obtain ⟨data, found, same⟩ := map_eq_ok.mp read
    refine ⟨data, ?_, same.symm⟩
    rw [← toOption_readAt, found]
    rfl

theorem Stretch.ofLittleEndian_of_read {field : String} {place : Stretch} {buf : Bytes} {off : Int}
    {n : Nat} (width : place.width ≤ 8) (read : place.read field buf off = .ok n) :
    ∃ data, Buffer.slice? buf (Word.add off place.offset) place.width = some data ∧
      Word.ofLittleEndian data = n := by
  obtain ⟨data, found, value⟩ := Stretch.slice?_of_read read
  refine ⟨data, found, ?_⟩
  obtain ⟨_, _, _, cut⟩ := Buffer.slice?_eq_some.mp found
  have short : data.length ≤ 8 := by
    rw [cut, List.length_take]
    omega
  have below : Word.ofLittleEndian data < 256 ^ 8 :=
    Nat.lt_of_lt_of_le (Word.ofLittleEndian_lt data) (Nat.pow_le_pow_right (by decide) short)
  simp only [Word.toSigned, Word.wrap, Int.bmod_def, UInt64.toNat_ofNat'] at value
  omega

/-- What a registry relies on in a message: its fields can be read and written, and its header stands
where the registry looks. -/
structure Registry.Serves (g : Registry) (l : Layout) : Prop where
  sound : l.Sound
  anchored : l.Anchored
  bounds : 0 < l.templateId ∧ (l.templateId : Int) ≤ Word.maxSigned
  bodyLen : ∃ form, l.HeaderAt (·.bodyLen) g.bodyLenAt form
  templateId : ∃ form, l.HeaderAt (·.templateId) g.templateIdAt form

private theorem Registry.ofTable_eq_ok {t : Table} {g : Registry} (registered : Registry.ofTable t = .ok g) :
    g.messages = t.messages ∧ g.messages ≠ [] ∧
      ∀ l ∈ g.messages, Registry.headerOf l = (g.bodyLenAt, g.templateIdAt) := by
  unfold Registry.ofTable at registered
  split at registered
  · cases registered
  · rename_i first rest listed
    simp only at registered
    split at registered
    · cases registered
    · rename_i agree
      cases registered
      refine ⟨listed.symm, by simp, ?_⟩
      intro l member
      rcases List.mem_cons.mp member with rfl | later
      · rfl
      · simpa using List.find?_eq_none.mp agree l later

private theorem Layout.Sound.headerAt {l header : Layout} (sound : l.Sound) (which : HeaderLink → Nat)
    {info : MessageInfo} {name field : String} (message : l.message = some info)
    (nested : l.fields[info.header.field]? = some (.nested name .once header))
    (known : (l.fieldOffset? info.header.field).isSome = true)
    (integer : header.HasIntAt (which info.header) field) :
    ∃ form, l.HeaderAt which ⟨(l.headerFieldAt info.header (which info.header)).1,
      (l.headerFieldAt info.header (which info.header)).2⟩ form := by
  obtain ⟨type, size, form, held⟩ := integer
  have outer := sound.field (List.mem_of_getElem? nested)
  have inner := outer.element header rfl
  obtain ⟨base, based⟩ := Option.isSome_iff_exists.mp known
  have constant : (header.fieldOffset? (which info.header)).isSome = true := by
    refine (inner.fieldOffset?_isSome_iff _).mpr ⟨(List.getElem?_eq_some_iff.mp held).1, ?_⟩
    intro f before
    exact inner.not_dynamic (outer.static header rfl) (List.mem_of_mem_take before)
  obtain ⟨offset, placed⟩ := Option.isSome_iff_exists.mp constant
  have place : l.headerFieldAt info.header (which info.header) = (Word.add base offset, size) := by
    simp [Layout.headerFieldAt, Layout.header?, message, nested, Field.element?, based, placed, held,
      Field.size]
  rw [place]
  exact ⟨form, .mk message nested based held placed rfl⟩

/-- What is known of the registry of an accepted schema. -/
structure Registry.IsSound (m : Model) (t : Table) (g : Registry) : Prop where
  serves : ∀ l ∈ g.messages, g.Serves l
  /-- The messages are the layouts of the structures declared as messages. -/
  listed : ∀ l, l ∈ g.messages ↔ ∃ s ∈ m.structures, s.isMessage = true ∧ t.layout? s.name = some l
  numbered : ∀ s ∈ m.structures, s.isMessage = true →
    ∃ l, t.layout? s.name = some l ∧ l.templateId = s.templateId
  ascending : g.messages.Pairwise fun a b => a.templateId < b.templateId
  nonempty : g.messages ≠ []

section Compiled

variable {document : Bytes} {m : Model} {t : Table} {g : Registry}

private theorem Table.layout?_of_isMessage (parsed : Model.parse document = .ok m)
    (compiled : Table.compile m = .ok t) {s : Structure} (declared : s ∈ m.structures)
    (message : s.isMessage = true) :
    ∃ l info, l ∈ t.layouts ∧ t.layout? s.name = some l ∧ l.message = some info ∧
      info.templateId = s.templateId := by
  have accepted := Model.isAccepted_of_parse parsed
  obtain ⟨l, listed, named⟩ := Table.exists_layout_of_compile compiled s declared
  obtain ⟨_, _, sound⟩ := Table.isSound_of_compile compiled
  obtain ⟨source, stems⟩ := sound.stems l listed
  have same : source = s := by
    have found : m.structure? l.name = some s := by
      rw [named]
      exact find?_of_nodup accepted.structures declared
    exact Option.some.inj (stems.found.symm.trans found)
  subst same
  rcases stems.message with ⟨_, component⟩ | ⟨link, isMessage, _, _⟩
  · rw [component] at message
    cases message
  · refine ⟨l, ⟨source.templateId, link⟩, listed, ?_, isMessage, rfl⟩
    rw [← named]
    exact find?_of_nodup sound.distinct listed

private theorem Table.templateId_of_isMessage (parsed : Model.parse document = .ok m)
    (compiled : Table.compile m = .ok t) {s : Structure} (declared : s ∈ m.structures)
    (message : s.isMessage = true) : ∃ l, t.layout? s.name = some l ∧ l.templateId = s.templateId := by
  obtain ⟨l, info, _, found, carried, id⟩ := Table.layout?_of_isMessage parsed compiled declared message
  exact ⟨l, found, by simp [Layout.templateId, carried, id]⟩

private theorem Table.mem_messages_iff (parsed : Model.parse document = .ok m) (compiled : Table.compile m = .ok t)
    (l : Layout) :
    l ∈ t.messages ↔ ∃ s ∈ m.structures, s.isMessage = true ∧ t.layout? s.name = some l := by
  obtain ⟨templates, _⟩ := Model.areNumbered_of_parse parsed
  obtain ⟨same, _⟩ := Table.isSound_of_compile compiled
  rw [Table.messages, same, templates, List.mem_filterMap]
  constructor
  · rintro ⟨template, member, found⟩
    obtain ⟨s, declared, message, rfl⟩ := mem_templatesOf.mp member
    exact ⟨s, declared, message, found⟩
  · rintro ⟨s, declared, message, found⟩
    exact ⟨_, mem_templatesOf.mpr ⟨s, declared, message, rfl⟩, found⟩

private theorem Table.messages_ascending (parsed : Model.parse document = .ok m)
    (compiled : Table.compile m = .ok t) : t.messages.Pairwise fun a b => a.templateId < b.templateId := by
  obtain ⟨templates, good⟩ := Model.areNumbered_of_parse parsed
  obtain ⟨same, _⟩ := Table.isSound_of_compile compiled
  rw [Table.messages, same, templates, List.pairwise_filterMap]
  refine good.ascending.imp_of_mem ?_
  intro a b first second smaller l foundL k foundK
  obtain ⟨s, declared, message, rfl⟩ := mem_templatesOf.mp first
  obtain ⟨u, alsoDeclared, alsoMessage, rfl⟩ := mem_templatesOf.mp second
  obtain ⟨one, oneFound, oneId⟩ := Table.templateId_of_isMessage parsed compiled declared message
  obtain ⟨two, twoFound, twoId⟩ := Table.templateId_of_isMessage parsed compiled alsoDeclared alsoMessage
  obtain rfl : one = l := Option.some.inj (oneFound.symm.trans foundL)
  obtain rfl : two = k := Option.some.inj (twoFound.symm.trans foundK)
  rw [oneId, twoId]
  exact smaller

private theorem Registry.serves_of_ofTable (parsed : Model.parse document = .ok m)
    (compiled : Table.compile m = .ok t) (registered : Registry.ofTable t = .ok g) {l : Layout}
    (member : l ∈ g.messages) : g.Serves l := by
  have accepted := Model.isAccepted_of_parse parsed
  obtain ⟨_, good⟩ := Model.areNumbered_of_parse parsed
  obtain ⟨messages, _, headers⟩ := Registry.ofTable_eq_ok registered
  obtain ⟨s, declared, message, found⟩ := (Table.mem_messages_iff parsed compiled l).mp (messages ▸ member)
  obtain ⟨other, info, inTable, again, carried, id⟩ :=
    Table.layout?_of_isMessage parsed compiled declared message
  obtain rfl : other = l := Option.some.inj (again.symm.trans found)
  have sound := Table.sound_of_compile accepted compiled other inTable
  obtain ⟨name, header, nested, known, bodyLen, templateId⟩ :=
    (Table.isWellFormed_of_compile accepted compiled inTable).header info carried
  have places := headers other member
  simp only [Registry.headerOf, Layout.bodyLenAt, Layout.templateIdAt, carried, Prod.mk.injEq] at places
  refine ⟨sound, ?_, ?_, ?_, ?_⟩
  · refine Table.anchored_of_compile accepted compiled other inTable ?_
    intro none_left
    rw [none_left] at nested
    cases nested
  · have bounds := good.bounds s declared message
    simpa [Layout.templateId, carried, id] using bounds
  · have place := sound.headerAt (·.bodyLen) carried nested known bodyLen
    rwa [places.1] at place
  · have place := sound.headerAt (·.templateId) carried nested known templateId
    rwa [places.2] at place

theorem Registry.isSound_of_ofTable (parsed : Model.parse document = .ok m)
    (compiled : Table.compile m = .ok t) (registered : Registry.ofTable t = .ok g) :
    g.IsSound m t := by
  obtain ⟨messages, nonempty, _⟩ := Registry.ofTable_eq_ok registered
  refine ⟨fun l member => Registry.serves_of_ofTable parsed compiled registered member, ?_, ?_, ?_,
    nonempty⟩
  · rw [messages]
    exact Table.mem_messages_iff parsed compiled
  · intro s declared message
    exact Table.templateId_of_isMessage parsed compiled declared message
  · rw [messages]
    exact Table.messages_ascending parsed compiled

/-- A message of the registry of an accepted schema is a layout of its table. -/
theorem Registry.IsSound.mem_layouts (sound : g.IsSound m t) {l : Layout} (member : l ∈ g.messages) :
    l ∈ t.layouts := by
  obtain ⟨s, _, _, named⟩ := (sound.listed l).mp member
  exact List.mem_of_find?_eq_some named

theorem Registry.mem_messages_of_isMessage (parsed : Model.parse document = .ok m)
    (compiled : Table.compile m = .ok t) (registered : Registry.ofTable t = .ok g) {l : Layout}
    (listed : l ∈ t.layouts) (message : l.isMessage = true) : l ∈ g.messages := by
  have sound := Registry.isSound_of_ofTable parsed compiled registered
  obtain ⟨_, _, layouts⟩ := Table.isSound_of_compile compiled
  obtain ⟨s, stems⟩ := layouts.stems l listed
  have declared : s ∈ m.structures := List.mem_of_find?_eq_some stems.found
  have named : s.name = l.name := by simpa using List.find?_some stems.found
  apply (sound.listed l).mpr
  refine ⟨s, declared, ?_, ?_⟩
  · rcases stems.message with ⟨component, _⟩ | ⟨_, _, isMessage, _⟩
    · simp [Layout.isMessage, component] at message
    · exact isMessage
  · rw [named]
    exact find?_of_nodup layouts.distinct listed

end Compiled

end TradeWire

import TradeWire.Proofs.Record.Fresh
import TradeWire.Proofs.Session.Output
import TradeWire.Proofs.Wire.Bounds

/-! When a fresh message packs, to how many bytes, and that it is read back as a message of its kind. -/

set_option autoImplicit false
set_option relaxedAutoImplicit false

namespace TradeWire

/-- Only what has a counter is of variable size. -/
def Layout.VariesByCounter (m : Model) (l : Layout) : Prop :=
  ∀ f ∈ l.fields, f.isDynamic = false → ∀ type ∈ m.type? f.type, type.variableSize = false

instance (m : Model) (l : Layout) : Decidable (l.VariesByCounter m) :=
  inferInstanceAs (Decidable
    (∀ f ∈ l.fields, f.isDynamic = false → ∀ type ∈ m.type? f.type, type.variableSize = false))

private theorem Field.leastShare_eq_extent {m : Model} {f : Field}
    (fixed : f.isDynamic = false → ∀ type ∈ m.type? f.type, type.variableSize = false)
    (empty : f.isDynamic = true → f.countBounds.1 = 0) : f.leastShare m = f.extent := by
  -- a type of variable size adds nothing, and its field takes nothing when it has a counter
  have share : f.isDynamic = false → f.leastShare m = f.floor := by
    intro constant
    have steady : (m.type? f.type).any (·.variableSize) = false := by
      cases known : m.type? f.type with
      | none => rfl
      | some type => exact fixed constant type known
    rw [Field.leastShare, steady]
    rfl
  have bound := f.leastShare_le_floor m
  cases f with
  | primitive name type size kind =>
    cases kind with
    | int | pad | bytes => exact share rfl
    | varBytes counter =>
      simp only [Field.floor, Field.extent] at bound ⊢
      omega
  | nested name repetition element =>
    cases repetition with
    | once | array => exact share rfl
    | group counter least most =>
      obtain rfl : least = 0 := empty rfl
      simp only [Field.floor, Field.extent] at bound ⊢
      omega

section Compiled

variable {m : Model} {t : Table} {l : Layout}

/-- The length that a fresh message announces is its extent, as a machine word. -/
theorem Table.initialBodyLen_eq (accepted : m.IsAccepted) (compiled : Table.compile m = .ok t)
    (listed : l ∈ t.layouts) (empty : l.MayBeEmpty) (varies : l.VariesByCounter m) :
    l.initialBodyLen = Word.wrap l.extent := by
  have sound := Table.sound_of_compile accepted compiled l listed
  have sized := Table.isSized_of_compile accepted compiled l listed
  unfold Layout.initialBodyLen
  split
  · rename_i fixed
    exact sound.fixed_eq (sized.uniform.isStatic_iff.mpr (by simpa using fixed))
  · have shares : l.fields.map (Field.leastShare m) = l.fields.map Field.extent := by
      refine List.map_congr_left ?_
      intro f member
      exact Field.leastShare_eq_extent (varies f member) (empty f member)
    rw [(Table.sums_of_compile accepted compiled listed).1, shares, Layout.extent_eq_sum]

private theorem Table.encodedSize_new (accepted : m.IsAccepted) (compiled : Table.compile m = .ok t)
    (listed : l ∈ t.layouts) (empty : l.MayBeEmpty) (varies : l.VariesByCounter m) :
    (Record.new l).encodedSize = l.initialBodyLen := by
  have sound := Table.sound_of_compile accepted compiled l listed
  rw [Table.initialBodyLen_eq accepted compiled listed empty varies, ← sound.reserve_initialSlots]
  exact Record.encodedSize_eq sound

end Compiled

/-- A fresh message is ready to be packed: it announces what it takes. -/
theorem Protocol.isReady_new {document : Bytes} {p : Protocol} (parsed : Protocol.parse document = .ok p)
    {l : Layout} (member : l ∈ p.registry.messages) (empty : l.MayBeEmpty)
    (varies : l.VariesByCounter p.model) : p.registry.IsReady (Record.new l) := by
  obtain ⟨read, compiled, _⟩ := Protocol.parse_eq_ok parsed
  have listed := (Protocol.isSound_of_parse parsed).mem_layouts member
  obtain ⟨numbered, announced⟩ := (Protocol.isHeaded_of_parse parsed l member).new
  refine ⟨member, .new, numbered, ?_⟩
  rw [Record.IsMeasured, announced,
    Table.encodedSize_new (Model.isAccepted_of_parse read) compiled listed empty varies]

/-- A schema of messages that start out differently; only the first of them packs as it announces. -/
def defaultsDocument : Bytes := List.flatMap Text.encodeUtf8
  ["<Model><DataTypes><DataType name='N' rootType='int' size='1' minValue='0' noValue='255'/>",
    "<DataType name='U' rootType='int' size='1' minValue='0' noValue='300'/>",
    "<DataType name='V' rootType='int' size='1' variableSize=''/>",
    "<DataType name='Pad9' rootType='String' size='9223372036854775807'/>",
    "<DataType name='T' rootType='data' size='4' variableSize='' counter='A'/></DataTypes><Structures>",
    "<Structure name='MessageHeaderComp'><Member name='BodyLen' type='N' cardinality='1'/>",
    "<Member name='TemplateID' type='N' cardinality='1'/></Structure><Structure name='Leg'>",
    "<Member name='A' type='N' cardinality='1'/></Structure>",
    "<Structure name='Full' type='Message' numericID='1'>",
    "<Member name='H' type='MessageHeaderComp' cardinality='1'/>",
    "<Member name='A' type='N' cardinality='1'/><Member name='B' type='T' cardinality='1'/>",
    "<Member name='C' type='N' cardinality='1'/>",
    "<Member name='D' type='Leg' cardinality='3' minCardinality='0' counter='C'/>",
    "<Member name='E' type='N' cardinality='1'/></Structure>",
    "<Structure name='Unset' type='Message' numericID='2'>",
    "<Member name='H' type='MessageHeaderComp' cardinality='1'/>",
    "<Member name='A' type='U' cardinality='1'/></Structure>",
    "<Structure name='Wide' type='Message' numericID='3'>",
    "<Member name='H' type='MessageHeaderComp' cardinality='1'/>",
    "<Member name='A' type='Pad9' cardinality='1'/>",
    "<Member name='B' type='Pad9' cardinality='1'/></Structure>",
    "<Structure name='Forced' type='Message' numericID='4'>",
    "<Member name='H' type='MessageHeaderComp' cardinality='1'/>",
    "<Member name='A' type='N' cardinality='1'/>",
    "<Member name='B' type='Leg' cardinality='3' minCardinality='1' counter='A'/></Structure>",
    "<Structure name='Vary' type='Message' numericID='5'>",
    "<Member name='H' type='MessageHeaderComp' cardinality='1'/>",
    "<Member name='A' type='V' cardinality='1'/></Structure></Structures></Model>"]

/-- The messages of a protocol, with the length they announce when they are fresh and what they pack to. -/
def Protocol.packings (p : Protocol) : List (String × Int × Except PackError Bytes) :=
  p.registry.messages.map fun l => (l.name, l.initialBodyLen, (Record.new l).pack)

/-- What the fresh messages of the schema announce and pack to. -/
def defaultPackings : List (String × Int × Except PackError Bytes) :=
  [("Full", 5, .ok [5, 1, 0, 0, 255]), ("Unset", 3, .error ⟨"Unset", "A", .doesNotFit 300 1⟩),
    ("Wide", 0, .error ⟨"MessageHeaderComp", "BodyLen", .truncated 2 0 0⟩),
    ("Forced", 4, .error ⟨"Forced", "B", .counterOutside 0 1 3⟩), ("Vary", 2, .ok [2, 5, 0])]

/-- The first message packs as it announces. Of the others one has a default that does not fit, one wraps
around in size, one has a group that needs an element, and one has an integer of variable size. -/
private theorem exists_defaults : ∃ p full, Protocol.parse defaultsDocument = .ok p ∧ full ∈ p.registry.messages ∧
    full.MayBeEmpty ∧ full.VariesByCounter p.model ∧ (Record.new full).pack = .ok [5, 1, 0, 0, 255] ∧
      p.packings = defaultPackings := by
  have run : ((Protocol.parse defaultsDocument).toOption.any fun p =>
      (p.registry.messages.any fun l => decide (l.MayBeEmpty ∧ l.VariesByCounter p.model ∧
        (Record.new l).pack = .ok [5, 1, 0, 0, 255])) && decide (p.packings = defaultPackings)) = true := by
    rw [defaultsDocument, Text.encodeUtf8_eq]
    decide +kernel
  simp only [Option.any_eq_true, toOption_eq_some, Bool.and_eq_true, List.any_eq_true,
    decide_eq_true_eq] at run
  obtain ⟨p, parsed, ⟨full, member, empty, varies, packed⟩, packings⟩ := run
  exact ⟨p, full, parsed, member, empty, varies, packed, packings⟩

/-- A default message is a valid message, with what it takes and what it announces. Where no group needs an
element and only what has a counter is of variable size, a fresh message packs exactly when the bytes it takes
can be counted and each of its integers, at any depth, fits its field. It then packs to as many bytes as its
layout has for it, announces them, and is read back as a message of its kind, filled up by zeros. -/
theorem Protocol.pack_new_isOk_iff {document : Bytes} {p : Protocol}
    (parsed : Protocol.parse document = .ok p) {l : Layout} (member : l ∈ p.registry.messages)
    (empty : l.MayBeEmpty) (varies : l.VariesByCounter p.model) :
    ((∃ b, (Record.new l).pack = .ok b) ↔
        (l.extent : Int) ≤ Word.maxSigned ∧ l.IntegersFit (Record.new l).slots) ∧
      ∀ b, (Record.new l).pack = .ok b →
        (b.length : Int) = l.initialBodyLen ∧ (Record.new l).bodyLen? = some (UInt64.ofNat b.length) ∧
          p.registry.bodyLen b 0 = .ok b.length ∧
            p.registry.unpack b 0 = .ok (⟨l, l.filledSlots (Record.new l).slots⟩, b.length) := by
  obtain ⟨read, compiled, _⟩ := Protocol.parse_eq_ok parsed
  have accepted := Model.isAccepted_of_parse read
  have sound := Protocol.isSound_of_parse parsed
  have listed := sound.mem_layouts member
  have whole := Table.sound_of_compile accepted compiled l listed
  have ready := Protocol.isReady_new parsed member empty varies
  have valid := Table.isValid_initialSlots_iff accepted compiled listed empty
  refine ⟨⟨?_, ?_⟩, ?_⟩
  · rintro ⟨b, packed⟩
    obtain ⟨shape, encoded, _, inMemory⟩ := ready.packs sound packed
    have length : b.length = l.extent := (whole.length_encode shape encoded).trans whole.reserve_initialSlots
    unfold Buffer.IsAddressable at inMemory
    exact ⟨by omega, valid.mp ((whole.encode_isOk_iff shape).mp ⟨b, encoded⟩)⟩
  · rintro ⟨small, fit⟩
    have shape : l.Admits (Record.new l).slots := l.admits_initialSlots
    have room : ((Record.new l).layout.reserve (Record.new l).slots : Int) ≤ Word.maxSigned := by
      rw [show (Record.new l).layout.reserve (Record.new l).slots = l.extent from whole.reserve_initialSlots]
      exact small
    obtain ⟨b, encoded⟩ := (whole.encode_isOk_iff shape).mpr (valid.mpr fit)
    exact ⟨b, (Record.pack_eq_encode_of_le whole room shape).trans encoded⟩
  · intro b packed
    obtain ⟨_, _, size, _⟩ := ready.packs sound packed
    obtain ⟨unpacked, length, announced⟩ := ready.reads sound packed
    rw [Table.encodedSize_new accepted compiled listed empty varies] at size
    exact ⟨size.symm, announced, length, unpacked⟩

theorem Protocol.full_pack_new_isOk_iff : ∃ p full, Protocol.parse defaultsDocument = .ok p ∧
    full ∈ p.registry.messages ∧ full.MayBeEmpty ∧ full.VariesByCounter p.model ∧
      (Record.new full).pack = .ok [5, 1, 0, 0, 255] ∧ full.initialBodyLen = 5 ∧
        full.IntegersFit (Record.new full).slots ∧
          ∃ r, p.registry.unpack [5, 1, 0, 0, 255] 0 = .ok (r, 5) ∧ r.layout = full := by
  obtain ⟨p, full, parsed, member, empty, varies, packed, _⟩ := exists_defaults
  obtain ⟨fits, whole⟩ := Protocol.pack_new_isOk_iff parsed member empty varies
  obtain ⟨length, _, _, read⟩ := whole _ packed
  exact ⟨p, full, parsed, member, empty, varies, packed, length.symm, (fits.mp ⟨_, packed⟩).2, _, read, rfl⟩

/-- Fresh messages of an accepted schema need not pack, and what they pack to need not have the length that
they announce. -/
theorem Protocol.new_not_packable : ∃ p, Protocol.parse defaultsDocument = .ok p ∧
    p.packings = defaultPackings ∧
      ¬∀ l ∈ p.registry.messages, ∃ b, (Record.new l).pack = .ok b ∧ (b.length : Int) = l.initialBodyLen ∧
        p.registry.bodyLen b 0 = .ok b.length ∧
          ∃ r, p.registry.unpack b 0 = .ok (r, b.length) ∧ r.layout = l := by
  obtain ⟨p, _, parsed, _, _, _, _, packings⟩ := exists_defaults
  refine ⟨p, parsed, packings, ?_⟩
  intro all
  have unset : ("Unset", 3, .error ⟨"Unset", "A", .doesNotFit 300 1⟩) ∈ p.packings := by
    simp [packings, defaultPackings]
  obtain ⟨l, member, same⟩ := List.mem_map.mp unset
  obtain ⟨b, packed, _⟩ := all l member
  simp [packed] at same

end TradeWire

import TradeWire.Proofs.Record.Lookups
import TradeWire.Proofs.Wire.Packing
import TradeWire.Proofs.Wire.Reproduction
import TradeWire.Proofs.Wire.RoundTrip
import TradeWire.Proofs.Wire.Unpacking

/-!
Guarantees for accepted schemas. Whatever document is read and compiled, the layouts of its table are
well formed, records are packed and unpacked as their members are encoded and decoded one by one, and
packing and unpacking undo each other. The codec computes with machine words; where sizes and positions
exceed them the guarantees end, as two small schemas show.
-/

set_option autoImplicit false
set_option relaxedAutoImplicit false

namespace TradeWire

/-- A schema with one structure: a text behind its length. -/
def noteDocument : Bytes := Text.encodeUtf8 <|
  "<Model><DataTypes><DataType name='N' rootType='int' size='1'/>" ++
  "<DataType name='T' rootType='String' size='4' variableSize='true' counter='N'/></DataTypes>" ++
  "<Structures><Structure name='Note' type='Component'><Member name='N' type='N' cardinality='1'/>" ++
  "<Member name='T' type='T' cardinality='1'/></Structure></Structures></Model>"

theorem exists_note : ∃ m t l r, Model.parse noteDocument = .ok m ∧ Table.compile m = .ok t ∧
    l ∈ t.layouts ∧ l.IsAddressable ∧ l.capacity = 5 ∧ Record.unpack l [1, 7] 0 = .ok (r, 2) ∧
      r.pack = .ok [1, 7] ∧ l.IsCounted r.slots := by
  have run : ((layoutsOf noteDocument).any fun l => l.capacity == 5 &&
      (Record.unpack l [1, 7] 0).toOption.any fun (r, stop) =>
        stop == 2 && r.pack.toOption == some [1, 7] && decide (l.IsCounted r.slots)) = true := by
    rw [noteDocument, Text.encodeUtf8_eq]
    decide +kernel
  obtain ⟨m, t, l, parsed, compiled, listed, checked⟩ := exists_of_any_layoutsOf run
  simp only [Bool.and_eq_true, beq_iff_eq, decide_eq_true_eq, Option.any_eq_true,
    toOption_eq_some] at checked
  obtain ⟨room, ⟨r, stop⟩, unpacked, ⟨rfl, packed⟩, counted⟩ := checked
  have addressable : l.IsAddressable := by
    rw [Layout.IsAddressable, room]
    decide
  exact ⟨m, t, l, r, parsed, compiled, listed, addressable, room, unpacked, packed, counted⟩

/-- The layouts of an accepted schema are well formed, so every position they refer to is there: in the
fields of a fresh record before its header is filled in, in every record that can come about, and in
what has been read of a record when a counter is asked for. -/
theorem Table.layouts_resolve {document : Bytes} {m : Model} {t : Table} {l : Layout}
    (parsed : Model.parse document = .ok m) (compiled : Table.compile m = .ok t)
    (listed : l ∈ t.layouts) :
    l.IsWellFormed t ∧ l.Resolves (initialFieldSlots l.fields) ∧
      (∀ r, Record.Reachable l r → l.Resolves r.slots) ∧ l.ReadsCountersFirst := by
  have accepted := Model.isAccepted_of_parse parsed
  have resolves := Table.resolves_of_admits accepted compiled l listed
  refine ⟨Table.isWellFormed_of_compile accepted compiled listed, ?_, ?_, ?_⟩
  · exact resolves _ l.admits_initialFieldSlots
  · intro r reached
    obtain ⟨rfl, shape⟩ := reached.hasShape
    exact resolves r.slots shape
  · exact (Table.sound_of_compile accepted compiled l listed).readsCountersFirst

theorem Table.note_resolves : ∃ m t l, Model.parse noteDocument = .ok m ∧ Table.compile m = .ok t ∧
    l ∈ t.layouts ∧ l.IsWellFormed t ∧ l.Resolves (initialFieldSlots l.fields) ∧
      (∀ r, Record.Reachable l r → l.Resolves r.slots) ∧ l.ReadsCountersFirst := by
  obtain ⟨m, t, l, _, parsed, compiled, listed, _⟩ := exists_note
  exact ⟨m, t, l, parsed, compiled, listed, Table.layouts_resolve parsed compiled listed⟩

/-- A schema whose sizes exceed a machine word: the two fillers of the structure together count as two
bytes less than none. -/
def wideDocument : Bytes := Text.encodeUtf8 <|
  "<Model><DataTypes><DataType name='N' rootType='int' size='8'/>" ++
  "<DataType name='T' rootType='String' size='4' variableSize='true' counter='N'/>" ++
  "<DataType name='Pad9' rootType='String' size='9223372036854775807'/></DataTypes>" ++
  "<Structures><Structure name='Wide' type='Component'><Member name='N' type='N' cardinality='1'/>" ++
  "<Member name='T' type='T' cardinality='1'/><Member name='A' type='Pad9' cardinality='1'/>" ++
  "<Member name='B' type='Pad9' cardinality='1'/></Structure></Structures></Model>"

/-- The schema is accepted; eight bytes are enough to read the structure and its end is behind six of
them, but six are not enough, and what was read cannot be written. -/
theorem exists_wide_read : ∃ m t l r fault, Model.parse wideDocument = .ok m ∧
    Table.compile m = .ok t ∧ l ∈ t.layouts ∧ l.fields ≠ [] ∧
      Record.unpack l (List.replicate 8 0) 0 = .ok (r, 6) ∧
        Record.unpack l (List.replicate 6 0) 0 = .error fault ∧
          l.decode (List.replicate 8 0) 0 = none ∧ r.pack = .error ⟨"Wide", "N", .truncated 8 0 6⟩ := by
  have run : ((layoutsOf wideDocument).any fun l => !l.fields.isEmpty &&
      (fault? (Record.unpack l (List.replicate 6 0) 0)).isSome &&
        (Record.unpack l (List.replicate 8 0) 0).toOption.any fun (r, stop) =>
          stop == 6 && (l.decode (List.replicate 8 0) 0).isNone &&
            fault? r.pack == some ⟨"Wide", "N", .truncated 8 0 6⟩) = true := by
    rw [wideDocument, Text.encodeUtf8_eq]
    decide +kernel
  obtain ⟨m, t, l, parsed, compiled, listed, checked⟩ := exists_of_any_layoutsOf run
  simp only [Bool.and_eq_true, Bool.not_eq_true', List.isEmpty_eq_false_iff, beq_iff_eq,
    Option.isNone_iff_eq_none, Option.isSome_iff_exists, Option.any_eq_true, toOption_eq_some,
    fault?_eq_some] at checked
  obtain ⟨⟨present, fault, short⟩, ⟨r, stop⟩, unpacked, ⟨rfl, undecoded⟩, failed⟩ := checked
  exact ⟨m, t, l, r, fault, parsed, compiled, listed, present, unpacked, short, undecoded, failed⟩

private theorem exists_wide : ∃ m t l r, Model.parse wideDocument = .ok m ∧ Table.compile m = .ok t ∧
    l ∈ t.layouts ∧ Record.unpack l (List.replicate 8 0) 0 = .ok (r, 6) ∧
      l.decode (List.replicate 8 0) 0 = none ∧ r.pack = .error ⟨"Wide", "N", .truncated 8 0 6⟩ := by
  obtain ⟨m, t, l, r, _, parsed, compiled, listed, _, unpacked, _, undecoded, failed⟩ := exists_wide_read
  exact ⟨m, t, l, r, parsed, compiled, listed, unpacked, undecoded, failed⟩

def gapDocument : Bytes := Text.encodeUtf8 <|
  "<Model><DataTypes><DataType name='Pad1' rootType='String' size='1'/></DataTypes>" ++
  "<Structures><Structure name='Gap' type='Component'><Member name='A' type='Pad1' cardinality='1'/>" ++
  "</Structure></Structures></Model>"

private theorem exists_gap : ∃ m t l r, Model.parse gapDocument = .ok m ∧ Table.compile m = .ok t ∧
    l ∈ t.layouts ∧ Record.unpack l [] Word.maxSigned = .ok (r, Word.minSigned) ∧
      l.decode [] Word.maxSigned = none ∧ r.pack = .ok [0] := by
  have run : ((layoutsOf gapDocument).any fun l =>
      (Record.unpack l [] Word.maxSigned).toOption.any fun (r, stop) =>
        stop == Word.minSigned && (l.decode [] Word.maxSigned).isNone &&
          r.pack.toOption == some [0]) = true := by
    rw [gapDocument, Text.encodeUtf8_eq]
    decide +kernel
  obtain ⟨m, t, l, parsed, compiled, listed, checked⟩ := exists_of_any_layoutsOf run
  simp only [Bool.and_eq_true, beq_iff_eq, Option.isNone_iff_eq_none, Option.any_eq_true,
    toOption_eq_some] at checked
  obtain ⟨⟨r, stop⟩, unpacked, ⟨rfl, undecoded⟩, packed⟩ := checked
  exact ⟨m, t, l, r, parsed, compiled, listed, unpacked, undecoded, packed⟩

/-- Packing a record and unpacking it are the encoding and the decoding of its members one by one. A
field has an offset as long as no dynamic field comes before it, and then its offset is the length of
what the members before it are encoded to. Every record that can come about has the shape asked for. -/
theorem Record.codec_eq_members {document : Bytes} {m : Model} {t : Table} {l : Layout}
    (parsed : Model.parse document = .ok m) (compiled : Table.compile m = .ok t)
    (listed : l ∈ t.layouts) (addressable : l.IsAddressable) :
    (∀ r : Record, r.layout = l → r.HasShape → r.pack = l.encode r.slots) ∧
    (∀ (buf : Bytes) (off : Int) (r : Record) (stop : Int), Word.minSigned ≤ off →
      off + l.capacity ≤ Word.maxSigned →
        (Record.unpack l buf off = .ok (r, stop) ↔
          r.layout = l ∧ l.decode buf off = some (r.slots, stop))) ∧
    (∀ i, (l.fieldOffset? i).isSome = true ↔
      i < l.fields.length ∧ ∀ f ∈ l.fields.take i, f.isDynamic = false) ∧
    (∀ i offset slots b, l.fieldOffset? i = some offset → l.Admits slots →
      joined ((encodings l.name slots l.fields slots).take i) = .ok b → offset = b.length) := by
  have sound := Table.sound_of_compile (Model.isAccepted_of_parse parsed) compiled l listed
  refine ⟨?_, ?_, sound.fieldOffset?_isSome_iff, ?_⟩
  · rintro r rfl shape
    exact r.pack_eq_encode sound addressable shape
  · intro buf off r stop low high
    exact Record.unpack_eq_ok_iff sound low high
  · intro i offset slots b known shape encoded
    exact sound.fieldOffset?_eq_length addressable known shape encoded

theorem Record.note_codec_eq_members : ∃ m t l r, Model.parse noteDocument = .ok m ∧
    Table.compile m = .ok t ∧ l ∈ t.layouts ∧ l.IsAddressable ∧
      Record.unpack l [1, 7] 0 = .ok (r, 2) ∧ l.decode [1, 7] 0 = some (r.slots, 2) ∧
        r.pack = l.encode r.slots := by
  obtain ⟨m, t, l, r, parsed, compiled, listed, addressable, room, unpacked, _⟩ := exists_note
  have codec := Record.codec_eq_members parsed compiled listed addressable
  obtain ⟨same, shape⟩ := (Record.Reachable.unpack unpacked).hasShape
  have decoded := (codec.2.1 [1, 7] 0 r 2 (by decide) (by rw [room]; decide)).mp unpacked
  exact ⟨m, t, l, r, parsed, compiled, listed, addressable, unpacked, decoded.2, codec.1 r same shape⟩

/-- Where sizes or positions exceed a machine word, structures are unpacked whose members cannot be
decoded. -/
theorem Record.codec_ne_members_beyond_words :
    (∃ m t l r, Model.parse wideDocument = .ok m ∧ Table.compile m = .ok t ∧ l ∈ t.layouts ∧
      Record.unpack l (List.replicate 8 0) 0 = .ok (r, 6) ∧ l.decode (List.replicate 8 0) 0 = none) ∧
    (∃ m t l r, Model.parse gapDocument = .ok m ∧ Table.compile m = .ok t ∧ l ∈ t.layouts ∧
      Record.unpack l [] Word.maxSigned = .ok (r, Word.minSigned) ∧ l.decode [] Word.maxSigned = none) := by
  constructor
  · obtain ⟨m, t, l, r, parsed, compiled, listed, unpacked, undecoded, _⟩ := exists_wide
    exact ⟨m, t, l, r, parsed, compiled, listed, unpacked, undecoded⟩
  · obtain ⟨m, t, l, r, parsed, compiled, listed, unpacked, undecoded, _⟩ := exists_gap
    exact ⟨m, t, l, r, parsed, compiled, listed, unpacked, undecoded⟩

/-- What a record is packed to unpacks, to the last byte, to the record with its byte strings filled up
by zeros. Trimming tells the two apart only where a variable byte string is shorter than its counter
says. -/
theorem Record.unpack_pack {document : Bytes} {m : Model} {t : Table} {l : Layout} {r : Record} {b : Bytes}
    (parsed : Model.parse document = .ok m) (compiled : Table.compile m = .ok t)
    (listed : l ∈ t.layouts) (addressable : l.IsAddressable) (reached : Record.Reachable l r)
    (packed : r.pack = .ok b) :
    Record.unpack l b 0 = .ok (⟨l, l.filledSlots r.slots⟩, b.length) ∧
      (l.IsCounted r.slots →
        (Record.trim ⟨l, l.filledSlots r.slots⟩).equal r.trim = true) := by
  have sound := Table.sound_of_compile (Model.isAccepted_of_parse parsed) compiled l listed
  obtain ⟨rfl, shape⟩ := reached.hasShape
  rw [r.pack_eq_encode sound addressable shape] at packed
  constructor
  · have decoded := sound.roundTrips r.slots b shape packed [] []
    refine (Record.unpack_eq_ok_iff sound ?_ ?_).mpr ⟨rfl, ?_⟩
    · decide
    · rw [Int.zero_add]
      exact addressable
    · simpa using decoded
  · intro counted
    have same := r.layout.trimsFilling r.slots shape counted
    simp [Record.equal, Record.trim, same]

theorem Record.note_unpack_pack : ∃ m t l r, Model.parse noteDocument = .ok m ∧
    Table.compile m = .ok t ∧ l ∈ t.layouts ∧ l.IsAddressable ∧ Record.Reachable l r ∧
      r.pack = .ok [1, 7] ∧ Record.unpack l [1, 7] 0 = .ok (⟨l, l.filledSlots r.slots⟩, 2) ∧
        (Record.trim ⟨l, l.filledSlots r.slots⟩).equal r.trim = true := by
  obtain ⟨m, t, l, r, parsed, compiled, listed, addressable, _, unpacked, packed, counted⟩ := exists_note
  have reached : Record.Reachable l r := .unpack unpacked
  have trip := Record.unpack_pack parsed compiled listed addressable reached packed
  exact ⟨m, t, l, r, parsed, compiled, listed, addressable, reached, packed, trip.1, trip.2 counted⟩

/-- What was unpacked packs to the bytes it came from, with padding blanked, unless a group holds fewer
elements than it should: then packing reports that group. -/
theorem Record.pack_unpack {document : Bytes} {m : Model} {t : Table} {l : Layout} {buf : Bytes}
    {off stop : Int} {r : Record} (parsed : Model.parse document = .ok m)
    (compiled : Table.compile m = .ok t) (listed : l ∈ t.layouts) (addressable : l.IsAddressable)
    (low : Word.minSigned ≤ off) (high : off + l.capacity ≤ Word.maxSigned)
    (unpacked : Record.unpack l buf off = .ok (r, stop)) :
    Reproduces buf off stop (l.padding r.slots) r.pack ∨
      ∃ name counter least most element,
        Field.nested name (.group counter least most) element ∈ l.fields ∧
          (rawAt r.slots counter).toNat < least ∧
            r.pack = .error ⟨l.name, name, .counterOutside (rawAt r.slots counter) least most⟩ := by
  have sound := Table.sound_of_compile (Model.isAccepted_of_parse parsed) compiled l listed
  obtain ⟨rfl, shape⟩ := (Record.Reachable.unpack unpacked).hasShape
  have decoded := ((Record.unpack_eq_ok_iff sound low high).mp unpacked).2
  rw [r.pack_eq_encode sound addressable shape]
  rcases sound.encode_decode decoded with
    again | ⟨fault, failed, name, counter, least, most, element, group, few, rfl⟩
  · exact .inl again
  · exact .inr ⟨name, counter, least, most, element, group, few, failed⟩

theorem Record.note_pack_unpack : ∃ m t l r, Model.parse noteDocument = .ok m ∧
    Table.compile m = .ok t ∧ l ∈ t.layouts ∧ l.IsAddressable ∧
      Record.unpack l [1, 7] 0 = .ok (r, 2) ∧ Reproduces [1, 7] 0 2 (l.padding r.slots) r.pack := by
  obtain ⟨m, t, l, r, parsed, compiled, listed, addressable, room, unpacked, packed, _⟩ := exists_note
  refine ⟨m, t, l, r, parsed, compiled, listed, addressable, unpacked, ?_⟩
  rcases Record.pack_unpack parsed compiled listed addressable (by decide) (by rw [room]; decide)
    unpacked with again | ⟨_, _, _, _, _, _, _, failed⟩
  · exact again
  · rw [packed] at failed
    cases failed

/-- Where sizes exceed a machine word, what was unpacked may not pack; where positions do, it may have
come from no bytes at all. -/
theorem Record.pack_ne_unpack_beyond_words :
    (∃ m t l r, Model.parse wideDocument = .ok m ∧ Table.compile m = .ok t ∧ l ∈ t.layouts ∧
      Record.unpack l (List.replicate 8 0) 0 = .ok (r, 6) ∧
        r.pack = .error ⟨"Wide", "N", .truncated 8 0 6⟩) ∧
    (∃ m t l r, Model.parse gapDocument = .ok m ∧ Table.compile m = .ok t ∧ l ∈ t.layouts ∧
      Record.unpack l [] Word.maxSigned = .ok (r, Word.minSigned) ∧ r.pack = .ok [0]) := by
  constructor
  · obtain ⟨m, t, l, r, parsed, compiled, listed, unpacked, _, failed⟩ := exists_wide
    exact ⟨m, t, l, r, parsed, compiled, listed, unpacked, failed⟩
  · obtain ⟨m, t, l, r, parsed, compiled, listed, unpacked, _, packed⟩ := exists_gap
    exact ⟨m, t, l, r, parsed, compiled, listed, unpacked, packed⟩

end TradeWire

import TradeWire.Proofs.Guarantees
import TradeWire.Proofs.Wire.Bounds
import TradeWire.Proofs.Wire.Locality
import TradeWire.Proofs.Wire.Splicing

/-! A record is written to its own bytes and to no others, and is read back from these and from no fewer. -/

set_option autoImplicit false
set_option relaxedAutoImplicit false

namespace TradeWire

private theorem Buffer.slice?_spliced {buf data : Bytes} {off : Int} (begins : 0 ≤ off)
    (ends : off + data.length ≤ buf.length) :
    Buffer.slice? (Buffer.spliced buf off.toNat data) off data.length = some data := by
  have front : (buf.take off.toNat).length = off.toNat := by
    rw [List.length_take]
    omega
  have start : ((buf.take off.toNat).length : Int) = off := by omega
  have whole := Buffer.slice?_whole (buf.take off.toNat) data (buf.drop (off.toNat + data.length))
  rwa [start] at whole

/-- Packing into a buffer succeeds exactly when the record packs and its bytes fit in behind the offset;
they then replace what stood there, and nothing else changes. So what is written does not depend on what
the buffer held, and a message framed in a pooled buffer is the message and nothing of an earlier one. -/
theorem Record.packInto_splices {document : Bytes} {m : Model} {t : Table} {l : Layout} {r : Record}
    (parsed : Model.parse document = .ok m) (compiled : Table.compile m = .ok t)
    (listed : l ∈ t.layouts) (present : l.fields ≠ []) (addressable : l.IsAddressable)
    (ofLayout : r.layout = l) (shape : r.HasShape) :
    (∀ (buf : Bytes) (off : Int) (out : Bytes) (stop : Int), Buffer.IsAddressable buf →
      Word.minSigned ≤ off → off ≤ Word.maxSigned →
        (r.packInto buf off = .ok (out, stop) ↔
          ∃ b, r.pack = .ok b ∧ 0 ≤ off ∧ off + b.length ≤ buf.length ∧ stop = off + b.length ∧
            out = buf.take off.toNat ++ b ++ buf.drop (off.toNat + b.length))) ∧
    (∀ (buf other : Bytes) (off : Int) (out changed : Bytes) (stop ending : Int),
      Buffer.IsAddressable buf → Buffer.IsAddressable other → Word.minSigned ≤ off →
        off ≤ Word.maxSigned → r.packInto buf off = .ok (out, stop) →
          r.packInto other off = .ok (changed, ending) →
            ending = stop ∧ ∃ b, Buffer.slice? out off (stop - off) = some b ∧
              Buffer.slice? changed off (stop - off) = some b) ∧
    (∀ (pooled : Bytes) (limit : Nat), r.frameIn pooled limit = r.frame limit ∧
      ∀ b, r.frameIn pooled limit = .ok b ↔ r.pack = .ok b ∧ Frame.check limit b = .ok ()) := by
  subst ofLayout
  have accepted := Model.isAccepted_of_parse parsed
  have sound := Table.sound_of_compile accepted compiled r.layout listed
  have anchored := Table.anchored_of_compile accepted compiled r.layout listed present
  refine ⟨?_, ?_, ?_⟩
  · intro buf off out stop inMemory low high
    exact Record.packInto_eq_ok_iff sound anchored addressable shape inMemory low high
  · intro buf other off out changed stop ending inMemory otherInMemory low high written rewritten
    obtain ⟨b, packed, begins, ends, rfl, rfl⟩ :=
      (Record.packInto_eq_ok_iff sound anchored addressable shape inMemory low high).mp written
    obtain ⟨c, again, _, fits, rfl, rfl⟩ :=
      (Record.packInto_eq_ok_iff sound anchored addressable shape otherInMemory low high).mp rewritten
    obtain rfl : b = c := Except.ok.inj (packed.symm.trans again)
    have length : off + b.length - off = (b.length : Int) := by omega
    rw [length]
    exact ⟨rfl, b, Buffer.slice?_spliced begins ends, Buffer.slice?_spliced begins fits⟩
  · intro pooled limit
    have framed := r.frameIn_eq sound addressable shape
    refine ⟨(framed pooled limit).trans (framed [] limit).symm, ?_⟩
    intro b
    rw [framed pooled limit]
    exact Record.framed_eq_ok

theorem Record.note_packInto_splices : ∃ m t l, ∃ r : Record, Model.parse noteDocument = .ok m ∧
    Table.compile m = .ok t ∧ l ∈ t.layouts ∧ l.fields ≠ [] ∧ l.IsAddressable ∧ r.layout = l ∧
      r.HasShape ∧ r.packInto [9, 9, 9, 9] 1 = .ok ([9, 1, 7, 9], 3) ∧
        r.frameIn [9, 9, 9, 9] 8 = r.frame 8 := by
  obtain ⟨m, t, l, r, parsed, compiled, listed, addressable, room, unpacked, packed, _⟩ := exists_note
  obtain ⟨same, shape⟩ := (Record.Reachable.unpack unpacked).hasShape
  have present := l.fields_ne_nil_of_capacity (by omega)
  have splices := Record.packInto_splices parsed compiled listed present addressable same shape
  refine ⟨m, t, l, r, parsed, compiled, listed, present, addressable, same, shape, ?_,
    (splices.2.2 [9, 9, 9, 9] 8).1⟩
  exact (splices.1 [9, 9, 9, 9] 1 [9, 1, 7, 9] 3 (by decide) (by decide) (by decide)).mpr
    ⟨[1, 7], packed, by decide, by decide, by decide, by decide⟩

/-- A record packs exactly when all its values are valid, at any depth; its bytes are then as many as its
encoded size says, and otherwise the fault is never that of the buffer made for it. -/
theorem Record.pack_isOk_iff_isValid {document : Bytes} {m : Model} {t : Table} {l : Layout} {r : Record}
    (parsed : Model.parse document = .ok m) (compiled : Table.compile m = .ok t)
    (listed : l ∈ t.layouts) (addressable : l.IsAddressable) (reached : Record.Reachable l r) :
    ((∃ b, r.pack = .ok b) ↔ l.IsValid r.slots) ∧
    (∀ b, r.pack = .ok b → (b.length : Int) = r.encodedSize) ∧
    (∀ fault, r.pack = .error fault → fault.cause.blamesBuffer = false) := by
  have sound := Table.sound_of_compile (Model.isAccepted_of_parse parsed) compiled l listed
  obtain ⟨rfl, shape⟩ := reached.hasShape
  rw [r.pack_eq_encode sound addressable shape]
  refine ⟨sound.encode_isOk_iff shape, ?_, r.layout.not_blamesBuffer_of_encode r.slots⟩
  intro b encoded
  rw [sound.length_encode shape encoded, Record.encodedSize_eq_reserve sound addressable]

theorem Record.note_pack_isOk_iff_isValid : ∃ m t l r, Model.parse noteDocument = .ok m ∧
    Table.compile m = .ok t ∧ l ∈ t.layouts ∧ l.IsAddressable ∧ Record.Reachable l r ∧
      r.pack = .ok [1, 7] ∧ l.IsValid r.slots ∧ r.encodedSize = 2 := by
  obtain ⟨m, t, l, r, parsed, compiled, listed, addressable, _, unpacked, packed, _⟩ := exists_note
  have reached : Record.Reachable l r := .unpack unpacked
  obtain ⟨valid, sized, _⟩ :=
    Record.pack_isOk_iff_isValid parsed compiled listed addressable reached
  exact ⟨m, t, l, r, parsed, compiled, listed, addressable, reached, packed, valid.mp ⟨_, packed⟩,
    (sized _ packed).symm⟩

/-- The sizes of a structure bound what its records pack to. A fixed size is the only size. -/
theorem Layout.size_bounds_pack {document : Bytes} {m : Model} {t : Table} {l : Layout}
    (parsed : Model.parse document = .ok m) (compiled : Table.compile m = .ok t)
    (listed : l ∈ t.layouts) :
    (l.size.fixed ≠ 0 → l.size.least = l.size.fixed ∧ l.size.most = l.size.fixed) ∧
    (l.size.isStatic = true ↔ l.size.fixed ≠ 0) ∧
    (l.IsAddressable → ∀ (r : Record) (b : Bytes), r.layout = l → r.HasShape → r.pack = .ok b →
      l.size.least ≤ b.length ∧ b.length ≤ l.size.most ∧
        (l.size.fixed ≠ 0 → (b.length : Int) = l.size.fixed)) := by
  have accepted := Model.isAccepted_of_parse parsed
  have sound := Table.sound_of_compile accepted compiled l listed
  have sized := Table.isSized_of_compile accepted compiled l listed
  refine ⟨sized.uniform, sized.uniform.isStatic_iff, ?_⟩
  rintro addressable r b rfl shape packed
  rw [r.pack_eq_encode sound addressable shape] at packed
  obtain ⟨least, most⟩ := sized.length_encode sound addressable shape packed
  refine ⟨least, most, ?_⟩
  intro fixed
  obtain ⟨same, also⟩ := sized.uniform fixed
  omega

theorem Layout.note_size_bounds_pack : ∃ m t l, ∃ r : Record, Model.parse noteDocument = .ok m ∧
    Table.compile m = .ok t ∧ l ∈ t.layouts ∧ l.IsAddressable ∧ r.layout = l ∧ r.HasShape ∧
      r.pack = .ok [1, 7] ∧ l.size.least ≤ 2 ∧ 2 ≤ l.size.most := by
  obtain ⟨m, t, l, r, parsed, compiled, listed, addressable, _, unpacked, packed, _⟩ := exists_note
  obtain ⟨same, shape⟩ := (Record.Reachable.unpack unpacked).hasShape
  obtain ⟨least, most, _⟩ :=
    (Layout.size_bounds_pack parsed compiled listed).2.2 addressable r [1, 7] same shape packed
  exact ⟨m, t, l, r, parsed, compiled, listed, addressable, same, shape, packed, least, most⟩

/-- What is unpacked from a stretch of a buffer is unpacked from the same bytes anywhere; and when the
buffer ends inside the stretch, unpacking stops for want of bytes. -/
theorem Record.unpack_isLocal {document : Bytes} {m : Model} {t : Table} {l : Layout} {buf : Bytes}
    {off stop : Int} {r : Record} (parsed : Model.parse document = .ok m)
    (compiled : Table.compile m = .ok t) (listed : l ∈ t.layouts) (present : l.fields ≠ [])
    (addressable : l.IsAddressable) (inMemory : Buffer.IsAddressable buf) (low : Word.minSigned ≤ off)
    (high : off ≤ Word.maxSigned) (unpacked : Record.unpack l buf off = .ok (r, stop))
    (forward : off ≤ stop) :
    ∃ chunk, Buffer.slice? buf off (stop - off) = some chunk ∧
      (∀ pre post, Buffer.IsAddressable (pre ++ chunk ++ post) →
        Record.unpack l (pre ++ chunk ++ post) pre.length = .ok (r, pre.length + (stop - off))) ∧
      (∀ k : Nat, off ≤ k → k < stop → ∃ fault, Record.unpack l (buf.take k) off = .error fault ∧
        fault.cause.isTruncated = true) := by
  have accepted := Model.isAccepted_of_parse parsed
  have sound := Table.sound_of_compile accepted compiled l listed
  have anchored := Table.anchored_of_compile accepted compiled l listed present
  obtain ⟨before, chunk, after, rfl, rfl, rfl, takes⟩ :=
    Record.unpack_takes anchored sound addressable inMemory low high unpacked forward
  have length : ((before.length + chunk.length : Nat) : Int) - before.length = chunk.length := by omega
  rw [length]
  refine ⟨chunk, Buffer.slice?_whole before chunk after, ?_, ?_⟩
  · intro pre post room
    rw [takes.whole pre post room, Int.natCast_add]
  · intro k from_start short
    have cut : (before ++ chunk ++ after).take k = before ++ chunk.take (k - before.length) := by
      rw [List.append_assoc, List.take_append, List.take_of_length_le (by omega),
        List.take_append_of_le_length (by omega)]
    rw [cut]
    refine takes.part before (chunk.take (k - before.length)) (chunk.drop (k - before.length))
      (List.take_append_drop _ _).symm ?_ ?_
    · intro none
      have left := congrArg List.length none
      rw [List.length_drop, List.length_nil] at left
      omega
    · unfold Buffer.IsAddressable at inMemory ⊢
      simp only [List.length_append] at inMemory ⊢
      omega

theorem Record.note_unpack_isLocal : ∃ m t l r, Model.parse noteDocument = .ok m ∧
    Table.compile m = .ok t ∧ l ∈ t.layouts ∧ l.fields ≠ [] ∧ l.IsAddressable ∧
      Record.unpack l [1, 7] 0 = .ok (r, 2) ∧ Record.unpack l [5, 1, 7, 6] 1 = .ok (r, 3) ∧
        ∃ fault, Record.unpack l [1] 0 = .error fault ∧ fault.cause.isTruncated = true := by
  obtain ⟨m, t, l, r, parsed, compiled, listed, addressable, room, unpacked, _⟩ := exists_note
  have present := l.fields_ne_nil_of_capacity (by omega)
  obtain ⟨chunk, sliced, anywhere, cut⟩ := Record.unpack_isLocal parsed compiled listed present
    addressable (by decide) (by decide) (by decide) unpacked (by decide)
  obtain rfl : [1, 7] = chunk := Option.some.inj sliced
  exact ⟨m, t, l, r, parsed, compiled, listed, present, addressable, unpacked,
    anywhere [5] [6] (by decide), cut 1 (by decide) (by decide)⟩

/-- Where sizes exceed a machine word, a structure may be read from bytes beyond its end: those up to its
end alone are too few. -/
theorem Record.unpack_not_isLocal_beyond_words : ∃ m t l r fault,
    Model.parse wideDocument = .ok m ∧ Table.compile m = .ok t ∧ l ∈ t.layouts ∧ l.fields ≠ [] ∧
      Record.unpack l (List.replicate 8 0) 0 = .ok (r, 6) ∧
        Buffer.slice? (List.replicate 8 0) 0 6 = some (List.replicate 6 0) ∧
          Record.unpack l (List.replicate 6 0) 0 = .error fault := by
  obtain ⟨m, t, l, r, fault, parsed, compiled, listed, present, unpacked, short, _⟩ := exists_wide_read
  exact ⟨m, t, l, r, fault, parsed, compiled, listed, present, unpacked, by decide, short⟩

end TradeWire

import TradeWire.Proofs.Session.Drafts

/-! Messages are packed to the length that their header announces, and only that number is touched. -/

set_option autoImplicit false
set_option relaxedAutoImplicit false

namespace TradeWire

open Schema

private theorem setNestedRaw_eq_set {slots inner : List Slot} {i j : Nat} {old : UInt64} {symbol : String}
    (there : slots[i]? = some (.struct inner)) (here : inner[j]? = some (.int old symbol)) (raw : UInt64) :
    setNestedRaw slots i j raw = slots.set i (.struct (inner.set j (.int raw symbol))) := by
  have number : setRawAt inner j raw = inner.set j (.int raw symbol) := by
    rw [setRawAt, List.modify_eq_set_getElem?, here]
    rfl
  rw [setNestedRaw, List.modify_eq_set_getElem?, there]
  simp [number]

private theorem setNestedRaw_setNestedRaw (slots : List Slot) (i j : Nat) (old new : UInt64) :
    setNestedRaw (setNestedRaw slots i j old) i j new = setNestedRaw slots i j new := by
  have number : ∀ inner : List Slot, setRawAt (setRawAt inner j old) j new = setRawAt inner j new := by
    intro inner
    rw [setRawAt, setRawAt, List.modify_modify_eq]
    apply congrArg (List.modify inner j)
    funext s
    cases s with
    | pad | int | bytes | struct | elems => rfl
  rw [setNestedRaw, setNestedRaw, List.modify_modify_eq]
  apply congrArg (List.modify slots i)
  funext s
  cases s with
  | struct inner => simp [number]
  | pad | int | bytes | elems => rfl

namespace Record

variable {r : Record}

/-- The number that updating changes has no part in the encoded size. -/
theorem encodedSize_updateLength (r : Record) : r.updateLength.encodedSize = r.encodedSize := by
  rcases r.updateLength_cases with same | ⟨info, _, same⟩
  · rw [same]
  · rw [same, encodedSize_setNestedRaw]

private theorem updateLength_updateLength (r : Record) : r.updateLength.updateLength = r.updateLength := by
  cases message : r.layout.message with
  | none =>
    have same : r.updateLength = r := by simp [updateLength, message]
    rw [same, same]
  | some info =>
    cases static : r.layout.size.isStatic with
    | true => rw [updateLength_of_static static, updateLength_of_static static]
    | false =>
      have once := updateLength_of_message message static
      have again := updateLength_of_message (r := r.updateLength)
        (by rw [layout_updateLength, message]) (by rw [layout_updateLength, static])
      rw [again, encodedSize_updateLength, layout_updateLength, once]
      simp only [setNestedRaw_setNestedRaw]

private theorem hasShape_updateLength (shape : r.HasShape) : r.updateLength.HasShape :=
  ((Change.updateLength r).keeps shape).2

private theorem bodyLen?_eq_headerRaw? (r : Record) : r.bodyLen? = r.headerRaw? (·.bodyLen) := rfl

end Record

section Compiled

variable {document : Bytes} {m : Model} {t : Table} {r : Record}

private theorem Record.announces_of_pack (accepted : m.IsAccepted) (compiled : Table.compile m = .ok t)
    (listed : r.layout ∈ t.layouts) (message : r.layout.isMessage = true) (shape : r.HasShape)
    (varies : r.layout.size.isStatic = false) {b : Bytes} (packed : r.updateLength.pack = .ok b) :
    r.updateLength.layout.encode r.updateLength.slots = .ok b ∧ Buffer.IsAddressable b ∧
      r.encodedSize = b.length ∧ r.updateLength.bodyLen? = some (UInt64.ofNat b.length) := by
  obtain ⟨info, carried, lengthAt, _⟩ := Table.isHeaded_of_compile accepted compiled listed message
  have sound : r.updateLength.layout.Sound := by
    rw [r.layout_updateLength]
    exact Table.sound_of_compile accepted compiled _ listed
  have anchored : r.updateLength.layout.Anchored := by
    rw [r.layout_updateLength]
    apply Table.anchored_of_compile accepted compiled _ listed
    obtain ⟨nested, _, _⟩ := lengthAt
    intro none_left
    rw [none_left] at nested
    cases nested
  have still := Record.hasShape_updateLength shape
  obtain ⟨encoded, size⟩ := Record.encode_of_pack sound anchored still packed
  have inMemory := Record.isAddressable_of_pack sound anchored still packed
  have measured : r.updateLength.IsMeasured := by
    apply Record.isMeasured_updateLength shape carried lengthAt
    intro static
    rw [varies] at static
    cases static
  refine ⟨encoded, inMemory, ?_, ?_⟩
  · rw [← r.encodedSize_updateLength, size]
  · rw [Record.bodyLen?_eq_headerRaw?, ← Word.ofInt_natCast, ← size]
    exact measured

/-- Updating the length of a message makes its header tell the truth and touches nothing else. A message of
constant size stays as it is; in any other just the number of the body length in the header is replaced, by
the encoded size, and updating twice is updating once. What is packed then is as long as the encoded size,
the header of the record and, in every registry of the table, the header among the bytes say. -/
theorem Record.updateLength_truthful (parsed : Model.parse document = .ok m)
    (compiled : Table.compile m = .ok t) (listed : r.layout ∈ t.layouts)
    (message : r.layout.isMessage = true) (shape : r.HasShape) :
    (∃ info inner old symbol, r.layout.message = some info ∧
      r.layout.NumberAt info.header.field info.header.bodyLen "BodyLen" ∧
      r.slots[info.header.field]? = some (.struct inner) ∧
      inner[info.header.bodyLen]? = some (.int old symbol) ∧
      r.updateLength =
        if r.layout.size.isStatic then r
        else ⟨r.layout, r.slots.set info.header.field
          (.struct (inner.set info.header.bodyLen (.int (Word.ofInt r.encodedSize) symbol)))⟩) ∧
    r.updateLength.updateLength = r.updateLength ∧
    (r.layout.size.isStatic = false → ∀ b, r.updateLength.pack = .ok b →
      r.encodedSize = b.length ∧ r.updateLength.encodedSize = b.length ∧
        (∃ length : UInt64, r.updateLength.bodyLen? = some length ∧ length.toNat = b.length) ∧
          ∀ g, Registry.ofTable t = .ok g → g.bodyLen b 0 = .ok b.length) := by
  have accepted := Model.isAccepted_of_parse parsed
  refine ⟨?_, r.updateLength_updateLength, ?_⟩
  · obtain ⟨info, carried, lengthAt, _⟩ := Table.isHeaded_of_compile accepted compiled listed message
    obtain ⟨inner, old, symbol, there, here⟩ := lengthAt.slot shape
    refine ⟨info, inner, old, symbol, carried, lengthAt, there, here, ?_⟩
    cases static : r.layout.size.isStatic with
    | true => exact Record.updateLength_of_static static
    | false =>
      rw [Record.updateLength_of_message carried static, setNestedRaw_eq_set there here]
      rfl
  · intro varies b packed
    obtain ⟨encoded, inMemory, size, announced⟩ :=
      Record.announces_of_pack accepted compiled listed message shape varies packed
    have high : (b.length : Int) ≤ Word.maxSigned := inMemory
    refine ⟨size, by rw [r.encodedSize_updateLength, size], ⟨_, announced, ?_⟩, ?_⟩
    · unfold Word.maxSigned at high
      rw [UInt64.toNat_ofNat']
      exact Nat.mod_eq_of_lt (by omega)
    · intro g registered
      have sound := Registry.isSound_of_ofTable parsed compiled registered
      have member : r.updateLength.layout ∈ g.messages := by
        rw [r.layout_updateLength]
        exact Registry.mem_messages_of_isMessage parsed compiled registered listed message
      have serves := sound.serves _ member
      obtain ⟨_, lengthAt⟩ := serves.bodyLen
      have whole : [] ++ b ++ [] = b := List.append_nil b
      have read := serves.read_packed (Record.hasShape_updateLength shape) lengthAt high announced encoded
        (whole.symm ▸ inMemory) Layout.bodyLenName
      rw [whole] at read
      exact read

theorem ping_updateLength_truthful : ∃ m t g, ∃ r : Record, Model.parse pingDocument = .ok m ∧
    Table.compile m = .ok t ∧ Registry.ofTable t = .ok g ∧ r.layout ∈ t.layouts ∧
      r.layout.isMessage = true ∧ r.HasShape ∧ r.layout.size.isStatic = false ∧
        r.bodyLen? = some 0 ∧ r.updateLength.pack = .ok pingBytes ∧ r.encodedSize = 8 ∧
          r.updateLength.updateLength = r.updateLength ∧ g.bodyLen pingBytes 0 = .ok 8 := by
  have run : ((registryOf? pingDocument).any fun g =>
      (g.unpack [0, 0, 0, 0, 7, 0, 1, 65] 0).toOption.any fun (r, _) =>
        r.layout.isMessage && !r.layout.size.isStatic && r.bodyLen? == some 0 &&
          r.updateLength.pack.toOption == some pingBytes) = true := by
    rw [registryOf?_eq parse_pingDocument]
    decide +kernel
  obtain ⟨m, t, g, parsed, compiled, registered, checked⟩ := exists_of_any_registryOf? run
  simp only [Option.any_eq_true, toOption_eq_some, Bool.and_eq_true, beq_iff_eq, Bool.not_eq_true'] at checked
  obtain ⟨⟨r, stop⟩, unpacked, ⟨⟨message, varies⟩, before⟩, packed⟩ := checked
  obtain ⟨member, reached⟩ := Registry.reachable_of_unpack unpacked
  have listed := (Registry.isSound_of_ofTable parsed compiled registered).mem_layouts member
  have shape : r.HasShape := reached.hasShape.2
  obtain ⟨_, twice, sizes⟩ := Record.updateLength_truthful parsed compiled listed message shape
  obtain ⟨size, _, _, read⟩ := sizes varies pingBytes packed
  exact ⟨m, t, g, r, parsed, compiled, registered, listed, message, shape, varies, before, packed, size,
    twice, read g registered⟩

end Compiled

end TradeWire

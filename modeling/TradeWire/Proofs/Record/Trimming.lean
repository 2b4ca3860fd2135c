import TradeWire.Proofs.Data.Related
import TradeWire.Proofs.Record.Symbols
import TradeWire.Proofs.Wire.Splicing
import TradeWire.Record.Dump

/-! A trimmed instance has the numbers, the encoding and the lines that it had before. -/

set_option autoImplicit false
set_option relaxedAutoImplicit false

namespace TradeWire

section Bytes

variable {data : Bytes} {length : Nat}

private theorem Text.dropTrailing_eq_rdropWhile {α : Type} (p : α → Bool) (items : List α) :
    dropTrailing p items = items.rdropWhile p := rfl

private theorem Text.dropTrailing_dropTrailing {α : Type} (p : α → Bool) (items : List α) :
    dropTrailing p (dropTrailing p items) = dropTrailing p items := by
  simp only [dropTrailing_eq_rdropWhile, List.rdropWhile_idempotent]

private theorem exists_zeros (data : Bytes) :
    ∃ n, data = Text.dropTrailing (· == 0) data ++ List.replicate n 0 :=
  exists_rdropWhile_append_replicate 0 data

private theorem length_dropTrailing_le (data : Bytes) :
    (Text.dropTrailing (· == 0) data).length ≤ data.length := by
  obtain ⟨n, whole⟩ := exists_zeros data
  have total := congrArg List.length whole
  rw [List.length_append] at total
  omega

private theorem zeroFilled_dropTrailing (fits : data.length ≤ length) :
    Buffer.zeroFilled length (Text.dropTrailing (· == 0) data) = Buffer.zeroFilled length data := by
  obtain ⟨n, whole⟩ := exists_zeros data
  have total := congrArg List.length whole
  rw [List.length_append, List.length_replicate] at total
  have room : length - (Text.dropTrailing (· == 0) data).length = n + (length - data.length) := by omega
  calc Buffer.zeroFilled length (Text.dropTrailing (· == 0) data)
      = Text.dropTrailing (· == 0) data ++
          (List.replicate n 0 ++ List.replicate (length - data.length) 0) := by
        rw [Buffer.zeroFilled, room, List.replicate_add]
    _ = Buffer.zeroFilled length data := by
        rw [← List.append_assoc, ← whole, Buffer.zeroFilled]

theorem all_zero_dropTrailing (data : Bytes) :
    (Text.dropTrailing (· == 0) data).all (· == 0) = data.all (· == 0) := by
  obtain ⟨n, whole⟩ := exists_zeros data
  conv_rhs => rw [whole]
  simp

end Bytes

private theorem Field.raw_trimSlot (f : Field) (s : Slot) : (f.trimSlot s).raw = s.raw := by
  cases f with
  | primitive name type size kind =>
    cases kind with
    | bytes initial => cases s with
      | pad | int | bytes | struct | elems => rfl
    | int | pad | varBytes => rfl
  | nested name repetition element =>
    cases s with
    | pad | int | bytes | struct | elems => rfl

private theorem getElem?_trimFieldSlots_of_none {fields : List Field} {i : Nat} (absent : fields[i]? = none)
    (slots : List Slot) : (trimFieldSlots fields slots)[i]? = slots[i]? := by
  induction fields generalizing i slots with
  | nil => simp [trimFieldSlots]
  | cons f fs ih =>
    cases i with
    | zero => simp at absent
    | succ i =>
      cases slots with
      | nil => rfl
      | cons s ss => simpa [trimFieldSlots] using ih (by simpa using absent) ss

private theorem rawAt_trimFieldSlots (fields : List Field) (slots : List Slot) (i : Nat) :
    rawAt (trimFieldSlots fields slots) i = rawAt slots i := by
  unfold rawAt
  cases here : fields[i]? with
  | none => rw [getElem?_trimFieldSlots_of_none here]
  | some f =>
    rw [getElem?_trimFieldSlots here, Option.map_map]
    congr 2
    funext s
    exact f.raw_trimSlot s

namespace Layout

theorem trimSlots_eq (l : Layout) (slots : List Slot) : l.trimSlots slots = trimFieldSlots l.fields slots := by
  obtain ⟨name, message, size, fields⟩ := l
  rfl

private theorem rawAt_trimSlots (l : Layout) (slots : List Slot) (i : Nat) :
    rawAt (l.trimSlots slots) i = rawAt slots i := by
  rw [trimSlots_eq, rawAt_trimFieldSlots]

end Layout

section Idempotence

private theorem Field.trimSlot_trimSlot {f : Field} (s : Slot)
    (below : ∀ element, f.element? = some element →
      ∀ slots, element.trimSlots (element.trimSlots slots) = element.trimSlots slots) :
    f.trimSlot (f.trimSlot s) = f.trimSlot s := by
  cases f with
  | primitive name type size kind =>
    cases kind with
    | bytes initial =>
      cases s with
      | bytes data => simp only [trimSlot, Text.dropTrailing_dropTrailing]
      | pad | int | struct | elems => rfl
    | int | pad | varBytes => rfl
  | nested name repetition element =>
    have again := below element rfl
    cases s with
    | struct slots => simp only [trimSlot, again]
    | elems items =>
      simp only [trimSlot, List.map_map, Slot.elems.injEq]
      exact List.map_congr_left fun item _ => again item
    | pad | int | bytes => rfl

private theorem Layout.trimSlots_trimSlots (l : Layout) :
    ∀ slots, l.trimSlots (l.trimSlots slots) = l.trimSlots slots := by
  induction l using Layout.nesting with
  | step name message size fields ih =>
    intro slots
    simp only [Layout.trimSlots]
    induction fields generalizing slots with
    | nil => simp [trimFieldSlots]
    | cons f fs tail =>
      cases slots with
      | nil => rfl
      | cons s ss =>
        have here := Field.trimSlot_trimSlot s (ih f (by simp))
        have others := tail (fun g later => ih g (by simp [later])) ss
        simp only [trimFieldSlots, here, others]

end Idempotence

section Encoding

private theorem joined_of_forall₂ {contents others : List (Except PackError Bytes)}
    (kept : List.Forall₂ (fun content other => ∀ b, content = .ok b → other = .ok b) contents others)
    {b : Bytes} (whole : joined contents = .ok b) : joined others = .ok b := by
  induction kept generalizing b with
  | nil => exact whole
  | cons first rest ih =>
    obtain ⟨x, y, here, tail, rfl⟩ := joined_cons_eq_ok.mp whole
    exact joined_cons_eq_ok.mpr ⟨x, y, first x here, ih tail, rfl⟩

/-- What is encoded is encoded to the same bytes once it has been trimmed. -/
def Layout.EncodesTrimmed (l : Layout) : Prop :=
  ∀ slots b, l.encode slots = .ok b → l.encode (l.trimSlots slots) = .ok b

private theorem Layout.EncodesTrimmed.items {element : Layout} (keeps : element.EncodesTrimmed)
    {items : List (List Slot)} {b : Bytes} (encoded : joined (items.map element.encode) = .ok b) :
    joined ((items.map element.trimSlots).map element.encode) = .ok b := by
  refine joined_of_forall₂ ?_ encoded
  rw [List.map_map, List.forall₂_map_left_iff, List.forall₂_map_right_iff, List.forall₂_same]
  intro item _
  exact keeps item

private theorem Field.encode_bytes (owner : String) (all : List Slot) (name type : String) (size : Nat)
    (initial : Option Bytes) (data : Bytes) :
    (Field.primitive name type size (.bytes initial)).encode owner all (.bytes data) =
      if data.length ≤ size then .ok (Buffer.zeroFilled size data)
      else .error ⟨owner, name, .bytesAboveSize data.length size⟩ := rfl

private theorem Field.encode_trimSlot {f : Field} {owner : String} {all trimmed : List Slot} {s : Slot} {b : Bytes}
    (same : ∀ i, rawAt trimmed i = rawAt all i)
    (below : ∀ element, f.element? = some element → element.EncodesTrimmed)
    (encoded : f.encode owner all s = .ok b) : f.encode owner trimmed (f.trimSlot s) = .ok b := by
  cases f with
  | primitive name type size kind =>
    cases kind with
    | int form => exact encoded
    | pad => exact encoded
    | varBytes counter =>
      simp only [Field.encode, Field.trimSlot, same] at encoded ⊢
      exact encoded
    | bytes initial =>
      cases s with
      | bytes data =>
        rw [Field.encode_bytes] at encoded
        rw [Field.trimSlot, Field.encode_bytes]
        by_cases fits : data.length ≤ size
        · have short := length_dropTrailing_le data
          rw [if_pos fits] at encoded
          rw [if_pos (by omega), zeroFilled_dropTrailing fits]
          exact encoded
        · rw [if_neg fits] at encoded
          cases encoded
      | pad | int | struct | elems => exact encoded
  | nested name repetition element =>
    have keeps := below element rfl
    cases s with
    | struct slots =>
      cases repetition with
      | once => exact keeps slots b encoded
      | array | group => exact encoded
    | elems items =>
      cases repetition with
      | once => exact encoded
      | array count =>
        simp only [Field.encode, Field.trimSlot, List.length_map] at encoded ⊢
        split at encoded
        · cases encoded
        · rename_i number
          rw [if_neg number]
          exact keeps.items encoded
      | group counter least most =>
        simp only [Field.encode, Field.trimSlot, List.length_map, same] at encoded ⊢
        split at encoded
        · cases encoded
        · rename_i inside
          split at encoded
          · cases encoded
          · rename_i number
            rw [if_neg inside, if_neg number]
            exact keeps.items encoded
    | pad | int | bytes => cases repetition <;> exact encoded

private theorem encodings_trimFieldSlots {owner : String} {all trimmed : List Slot} {fields : List Field}
    (same : ∀ i, rawAt trimmed i = rawAt all i)
    (below : ∀ f ∈ fields, ∀ element, f.element? = some element → element.EncodesTrimmed)
    (slots : List Slot) :
    List.Forall₂ (fun content other => ∀ b, content = .ok b → other = .ok b)
      (encodings owner all fields slots) (encodings owner trimmed fields (trimFieldSlots fields slots)) := by
  induction fields generalizing slots with
  | nil => simp [encodings]
  | cons f fs ih =>
    cases slots with
    | nil => simp [encodings, trimFieldSlots]
    | cons s ss =>
      refine .cons ?_ (ih (fun g later => below g (by simp [later])) ss)
      intro b encoded
      exact Field.encode_trimSlot same (below f (by simp)) encoded

private theorem Layout.encodesTrimmed (l : Layout) : l.EncodesTrimmed := by
  induction l using Layout.nesting with
  | step name message size fields ih =>
    intro slots b encoded
    have same := rawAt_trimFieldSlots fields slots
    exact joined_of_forall₂ (encodings_trimFieldSlots same ih slots) encoded

end Encoding

section Lines

private theorem Field.lines_trimSlot {f : Field} (s : Slot)
    (below : ∀ element, f.element? = some element →
      ∀ depth slots, element.lines depth (element.trimSlots slots) = element.lines depth slots)
    (depth : Nat) : f.lines depth (f.trimSlot s) = f.lines depth s := by
  cases f with
  | primitive name type size kind =>
    cases kind with
    | bytes initial =>
      cases s with
      | bytes data => simp only [Field.lines, Field.trimSlot, Slot.data, Text.dropTrailing_dropTrailing]
      | pad | int | struct | elems => rfl
    | int | pad | varBytes => rfl
  | nested name repetition element =>
    have same := below element rfl
    cases s with
    | struct slots => simp only [Field.lines, Field.trimSlot, same]
    | elems items =>
      have each : (items.map element.trimSlots).map (element.lines (depth + 1)) =
          items.map (element.lines (depth + 1)) := by
        rw [List.map_map]
        exact List.map_congr_left fun item _ => same (depth + 1) item
      simp only [Field.lines, Field.trimSlot, each]
    | pad | int | bytes => rfl

private theorem Layout.lines_trimSlots (l : Layout) :
    ∀ depth slots, l.lines depth (l.trimSlots slots) = l.lines depth slots := by
  induction l using Layout.nesting with
  | step name message size fields ih =>
    intro depth slots
    simp only [Layout.trimSlots, Layout.lines]
    induction fields generalizing slots with
    | nil => simp [fieldLines]
    | cons f fs tail =>
      cases slots with
      | nil => rfl
      | cons s ss =>
        have here := Field.lines_trimSlot s (ih f (by simp)) depth
        have others := tail (fun g later => ih g (by simp [later])) ss
        simp only [trimFieldSlots, fieldLines, here, others]

end Lines

namespace Record

variable {r : Record}

theorem trim_trim (r : Record) : r.trim.trim = r.trim := by
  unfold trim
  simp only [Layout.trimSlots_trimSlots]

theorem format_trim (r : Record) : r.trim.format = r.format := by
  unfold format trim Record.name
  simp only [Layout.lines_trimSlots]

theorem encodedSize_trim (r : Record) : r.trim.encodedSize = r.encodedSize :=
  encodedSize_congr fun i => r.layout.rawAt_trimSlots r.slots i

private theorem hasShape_trim (shape : r.HasShape) : r.trim.HasShape := ((Change.trim r).keeps shape).2

theorem pack_trim (sound : r.layout.Sound) (anchored : r.layout.Anchored) (shape : r.HasShape) {b : Bytes}
    (packed : r.pack = .ok b) : r.trim.pack = .ok b := by
  obtain ⟨encoded, size⟩ := r.encode_of_pack sound anchored shape packed
  have inMemory : (b.length : Int) ≤ Word.maxSigned := r.isAddressable_of_pack sound anchored shape packed
  have trimmed : r.trim.layout.encode r.trim.slots = .ok b := r.layout.encodesTrimmed r.slots b encoded
  have still := hasShape_trim shape
  have length : b.length = r.trim.layout.reserve r.trim.slots := sound.length_encode still trimmed
  have whole : r.trim.pack = r.trim.layout.encode r.trim.slots :=
    r.trim.pack_eq_encode_of_le sound (by omega) still
  rw [whole, trimmed]

end Record

end TradeWire

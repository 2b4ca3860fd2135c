import TradeWire.Proofs.Record.Shape
import TradeWire.Wire.Pack
import TradeWire.Wire.Unpack

/-! The codec member by member, without runs, offsets and wrapping positions. -/

set_option autoImplicit false
set_option relaxedAutoImplicit false

namespace TradeWire

/-- Contents one behind the other; the first fault counts. -/
def joined : List (Except PackError Bytes) → Except PackError Bytes
  | [] => .ok []
  | .error fault :: _ => .error fault
  | .ok data :: rest => (joined rest).map (data ++ ·)

mutual

/-- The encoding of an instance: those of its members one behind the other. -/
def Layout.encode : Layout → List Slot → Except PackError Bytes
  | .mk name _ _ fields, slots => joined (encodings name slots fields slots)

/-- The encodings of the members one by one; `all` are the slots of the whole instance. -/
def encodings (owner : String) (all : List Slot) : List Field → List Slot → List (Except PackError Bytes)
  | f :: fs, s :: ss => f.encode owner all s :: encodings owner all fs ss
  | _, _ => []

/-- The encoding of one member by the rule of its kind. -/
def Field.encode (owner : String) (all : List Slot) : Field → Slot → Except PackError Bytes
  | .primitive name _ size (.int form), s =>
    if Word.fits s.raw size form.isSigned then .ok (Word.littleEndian size s.raw.toNat)
    else .error ⟨owner, name, .doesNotFit s.raw size⟩
  | .primitive _ _ size .pad, _ => .ok (List.replicate size 0)
  | .primitive name _ size (.bytes _), s =>
    if s.data.length ≤ size then .ok (Buffer.zeroFilled size s.data)
    else .error ⟨owner, name, .bytesAboveSize s.data.length size⟩
  | .primitive name _ size (.varBytes counter), s =>
    let length := rawAt all counter
    if size < length.toNat then .error ⟨owner, name, .counterAboveLength length size⟩
    else if length.toNat < s.data.length then
      .error ⟨owner, name, .bytesAboveCounter s.data.length length⟩
    else .ok (Buffer.zeroFilled length.toNat s.data)
  | .nested _ .once element, .struct slots => element.encode slots
  | .nested name (.array count) element, .elems items =>
    if items.length != count then .error ⟨owner, name, .arrayCount items.length count⟩
    else joined (items.map element.encode)
  | .nested name (.group counter least most) element, .elems items =>
    let number := rawAt all counter
    if most < number.toNat || number.toNat < least then
      .error ⟨owner, name, .counterOutside number least most⟩
    else if items.length != number.toNat then .error ⟨owner, name, .groupCount items.length number⟩
    else joined (items.map element.encode)
  | .nested .., _ => .ok []

end

/-- Decode several items, each where the one before it ended. -/
def decodeTimes {α : Type} (decode : Bytes → Int → Option (α × Int)) :
    Nat → Bytes → Int → Option (List α × Int)
  | 0, _, pos => some ([], pos)
  | count + 1, buf, pos =>
    match decode buf pos with
    | none => none
    | some (item, next) => (decodeTimes decode count buf next).map fun (items, stop) => (item :: items, stop)

mutual

/-- Decode an instance at a position, member by member; the answer holds the position behind it. -/
def Layout.decode : Layout → Bytes → Int → Option (List Slot × Int)
  | .mk _ _ _ fields, buf, pos => decodeFields fields [] buf pos

def decodeFields : List Field → List Slot → Bytes → Int → Option (List Slot × Int)
  | [], earlier, _, pos => some (earlier, pos)
  | f :: fs, earlier, buf, pos =>
    match f.decode earlier buf pos with
    | none => none
    | some (s, next) => decodeFields fs (earlier ++ [s]) buf next

/-- Decode one member by the rule of its kind; its bytes have to lie inside the buffer. -/
def Field.decode : Field → List Slot → Bytes → Int → Option (Slot × Int)
  | .primitive _ _ size (.int form), _, buf, pos =>
    (Buffer.slice? buf pos size).map fun data => (intSlot size form data, pos + size)
  | .primitive _ _ size .pad, _, buf, pos => (Buffer.slice? buf pos size).map fun _ => (.pad, pos + size)
  | .primitive _ _ size (.bytes _), _, buf, pos =>
    (Buffer.slice? buf pos size).map fun data => (.bytes data, pos + size)
  | .primitive _ _ size (.varBytes counter), earlier, buf, pos =>
    let length := (rawAt earlier counter).toNat
    if size < length then none
    else (Buffer.slice? buf pos length).map fun data => (.bytes data, pos + length)
  | .nested _ .once element, _, buf, pos =>
    (element.decode buf pos).map fun (slots, stop) => (.struct slots, stop)
  | .nested _ (.array count) element, _, buf, pos =>
    (decodeTimes element.decode count buf pos).map fun (items, stop) => (.elems items, stop)
  | .nested _ (.group counter _ most) element, earlier, buf, pos =>
    let count := (rawAt earlier counter).toNat
    if most < count then none
    else (decodeTimes element.decode count buf pos).map fun (items, stop) => (.elems items, stop)

end

mutual

/-- The slots of an instance with byte strings filled up by zeros: fixed ones to their size, variable
ones to the length their counter says. Numbers stay, each with the symbol of its value. -/
def Layout.filledSlots : Layout → List Slot → List Slot
  | .mk _ _ _ fields, slots => filledFieldSlots slots fields slots

/-- The filled slots of several members; `all` are the slots of the whole instance. -/
def filledFieldSlots (all : List Slot) : List Field → List Slot → List Slot
  | f :: fs, s :: ss => f.filledSlot all s :: filledFieldSlots all fs ss
  | _, _ => []

def Field.filledSlot (all : List Slot) : Field → Slot → Slot
  | .primitive _ _ _ (.int form), s => .int s.raw ((form.symbols.bind (·.name? s.raw)).getD "")
  | .primitive _ _ _ .pad, _ => .pad
  | .primitive _ _ size (.bytes _), s => .bytes (Buffer.zeroFilled size s.data)
  | .primitive _ _ _ (.varBytes counter), s =>
    .bytes (Buffer.zeroFilled (rawAt all counter).toNat s.data)
  | .nested _ _ element, .struct slots => .struct (element.filledSlots slots)
  | .nested _ _ element, .elems items => .elems (items.map element.filledSlots)
  | .nested .., s => s

end

mutual

/-- For each byte of the encoding of an instance, whether it belongs to padding. -/
def Layout.padding : Layout → List Slot → List Bool
  | .mk _ _ _ fields, slots => paddingOf fields slots

def paddingOf : List Field → List Slot → List Bool
  | f :: fs, s :: ss => f.padding s ++ paddingOf fs ss
  | _, _ => []

/-- The padding marks of one member. -/
def Field.padding : Field → Slot → List Bool
  | .primitive _ _ size .pad, _ => List.replicate size true
  | .primitive _ _ _ (.varBytes _), s => List.replicate s.data.length false
  | .primitive _ _ size _, _ => List.replicate size false
  | .nested _ _ element, .struct slots => element.padding slots
  | .nested _ _ element, .elems items => items.flatMap element.padding
  | .nested .., _ => []

end

/-- Replace the marked bytes by zero. -/
def blanked (marks : List Bool) (data : Bytes) : Bytes :=
  List.zipWith (fun mark b => if mark then 0 else b) marks data

/-- The number of bytes set aside for a member: counters above their bound count as the bound. -/
def Field.reserve (all : List Slot) : Field → Nat
  | .primitive _ _ size (.varBytes counter) => min (rawAt all counter).toNat size
  | .nested _ (.group counter _ most) element => min (rawAt all counter).toNat most * element.extent
  | f => f.extent

/-- The number of bytes set aside for an instance. -/
def Layout.reserve (l : Layout) (slots : List Slot) : Nat := (l.fields.map (Field.reserve slots)).sum

theorem joined_cons_eq_ok {c : Except PackError Bytes} {rest : List (Except PackError Bytes)}
    {b : Bytes} :
    joined (c :: rest) = .ok b ↔ ∃ x y, c = .ok x ∧ joined rest = .ok y ∧ b = x ++ y := by
  cases c with
  | error fault => simp [joined]
  | ok data =>
    cases tail : joined rest with
    | error fault => simp [joined, tail, Except.map]
    | ok more => simp [joined, tail, Except.map, eq_comm]

theorem joined_singleton (content : Except PackError Bytes) : joined [content] = content := by
  cases content with
  | error fault => rfl
  | ok data => simp [joined, Except.map]

theorem joined_append (before after : List (Except PackError Bytes)) :
    joined (before ++ after) =
      match joined before with
      | .error fault => .error fault
      | .ok data => (joined after).map (data ++ ·) := by
  induction before with
  | nil => cases tail : joined after <;> simp [joined, tail, Except.map]
  | cons c rest ih =>
    cases c with
    | error fault => rfl
    | ok data =>
      simp only [List.cons_append, joined, ih]
      cases joined rest with
      | error fault => rfl
      | ok more => cases joined after <;> simp [Except.map]

theorem length_joined {contents : List (Except PackError Bytes)} {n : Nat} {b : Bytes}
    (each : ∀ x, .ok x ∈ contents → x.length = n) (whole : joined contents = .ok b) :
    b.length = contents.length * n := by
  induction contents generalizing b with
  | nil =>
    simp only [joined, Except.ok.injEq] at whole
    simp [← whole]
  | cons c rest ih =>
    obtain ⟨x, y, rfl, tail, rfl⟩ := joined_cons_eq_ok.mp whole
    have first := each x (by simp)
    have others := ih (fun z member => each z (by simp [member])) tail
    simp only [List.length_append, List.length_cons, first, others, Nat.add_mul]
    omega

namespace Field

variable {all : List Slot}

theorem reserve_of_not_dynamic {f : Field} (constant : f.isDynamic = false) :
    f.reserve all = f.extent := by
  match f with
  | .primitive _ _ _ (.int _) | .primitive _ _ _ .pad | .primitive _ _ _ (.bytes _) => rfl
  | .nested _ .once _ | .nested _ (.array _) _ => rfl
  | .primitive _ _ _ (.varBytes _) | .nested _ (.group ..) _ => simp [isDynamic] at constant

theorem reserve_le_capacity (f : Field) (all : List Slot) : f.reserve all ≤ f.capacity := by
  match f with
  | .primitive _ _ _ (.int _) | .primitive _ _ _ .pad | .primitive _ _ _ (.bytes _) => exact Nat.le_refl _
  | .nested _ .once _ | .nested _ (.array _) _ => exact Nat.le_refl _
  | .primitive _ _ _ (.varBytes _) => exact Nat.min_le_right _ _
  | .nested _ (.group ..) element => exact Nat.mul_le_mul_right _ (Nat.min_le_right _ _)

end Field

private theorem sum_reserve_le_capacity (all : List Slot) (fields : List Field) :
    (fields.map (Field.reserve all)).sum ≤ (fields.map Field.capacity).sum := by
  induction fields with
  | nil => exact Nat.le_refl _
  | cons f rest ih =>
    have here := f.reserve_le_capacity all
    simp only [List.map_cons, List.sum_cons]
    omega

theorem Layout.reserve_le_capacity (l : Layout) (slots : List Slot) : l.reserve slots ≤ l.capacity :=
  sum_reserve_le_capacity slots l.fields

theorem Layout.Sound.reserve_eq {l : Layout} (sound : l.Sound) (static : l.size.isStatic = true)
    (slots : List Slot) : l.reserve slots = l.extent := by
  rw [Layout.reserve, Layout.extent_eq_sum]
  congr 1
  refine List.map_congr_left ?_
  intro f member
  exact Field.reserve_of_not_dynamic (sound.not_dynamic static member)

theorem Buffer.length_zeroFilled {length : Nat} {data : Bytes} (short : data.length ≤ length) :
    (Buffer.zeroFilled length data).length = length := by
  simp only [Buffer.zeroFilled, List.length_append, List.length_replicate]
  omega

/-- An element of constant size: what it encodes to has its extent. -/
def Layout.EncodesExtent (element : Layout) : Prop :=
  ∀ slots b, element.Admits slots → element.encode slots = .ok b → b.length = element.extent

private theorem length_joined_items {element : Layout} (sized : element.EncodesExtent) {items : List (List Slot)}
    (shape : ∀ item ∈ items, element.Admits item) {b : Bytes}
    (encoded : joined (items.map element.encode) = .ok b) : b.length = items.length * element.extent := by
  have total := length_joined (n := element.extent) ?_ encoded
  · simpa using total
  · intro x member
    obtain ⟨item, inside, same⟩ := List.mem_map.mp member
    exact sized item x (shape item inside) same

/-- What a member is encoded as, and what must hold for it, for each kind of field. -/
inductive Field.Encodes (all : List Slot) : Field → Slot → Bytes → Prop
  | int {name type : String} {size : Nat} {form : IntForm} {s : Slot}
      (fits : Word.fits s.raw size form.isSigned = true) :
      Encodes all (.primitive name type size (.int form)) s (Word.littleEndian size s.raw.toNat)
  | pad {name type : String} {size : Nat} {s : Slot} :
      Encodes all (.primitive name type size .pad) s (List.replicate size 0)
  | bytes {name type : String} {size : Nat} {initial : Option Bytes} {s : Slot} (short : s.data.length ≤ size) :
      Encodes all (.primitive name type size (.bytes initial)) s (Buffer.zeroFilled size s.data)
  | varBytes {name type : String} {size counter : Nat} {s : Slot} (bounded : (rawAt all counter).toNat ≤ size)
      (short : s.data.length ≤ (rawAt all counter).toNat) :
      Encodes all (.primitive name type size (.varBytes counter)) s
        (Buffer.zeroFilled (rawAt all counter).toNat s.data)
  | once {name : String} {element : Layout} {slots : List Slot} {b : Bytes}
      (encoded : element.encode slots = .ok b) : Encodes all (.nested name .once element) (.struct slots) b
  | array {name : String} {element : Layout} {items : List (List Slot)} {b : Bytes}
      (encoded : joined (items.map element.encode) = .ok b) :
      Encodes all (.nested name (.array items.length) element) (.elems items) b
  | group {name : String} {counter least most : Nat} {element : Layout} {items : List (List Slot)} {b : Bytes}
      (bounded : items.length ≤ most) (counted : items.length = (rawAt all counter).toNat)
      (encoded : joined (items.map element.encode) = .ok b) :
      Encodes all (.nested name (.group counter least most) element) (.elems items) b

theorem Field.encodes_of_ok {f : Field} {owner : String} {all : List Slot} {s : Slot} {b : Bytes}
    (shape : f.Admits s) (encoded : f.encode owner all s = .ok b) : f.Encodes all s b := by
  cases f with
  | primitive name type size kind =>
    cases kind with
    | int form =>
      simp only [Field.encode] at encoded
      split at encoded
      · rename_i fits
        cases encoded
        exact .int fits
      · cases encoded
    | pad =>
      cases encoded
      exact .pad
    | bytes initial =>
      simp only [Field.encode] at encoded
      split at encoded
      · rename_i short
        cases encoded
        exact .bytes short
      · cases encoded
    | varBytes counter =>
      simp only [Field.encode] at encoded
      split at encoded
      · cases encoded
      · split at encoded
        · cases encoded
        · rename_i bounded short
          cases encoded
          exact .varBytes (Nat.not_lt.mp bounded) (Nat.not_lt.mp short)
  | nested name repetition element =>
    cases repetition with
    | once =>
      cases s with
      | struct slots => exact .once encoded
      | pad | int | bytes | elems => simp [Field.Admits] at shape
    | array count =>
      cases s with
      | elems items =>
        simp only [Field.encode] at encoded
        split at encoded
        · cases encoded
        · rename_i number
          obtain rfl : items.length = count := by simpa using number
          exact .array encoded
      | pad | int | bytes | struct => simp [Field.Admits] at shape
    | group counter least most =>
      cases s with
      | elems items =>
        simp only [Field.encode] at encoded
        split at encoded
        · cases encoded
        · rename_i inside
          split at encoded
          · cases encoded
          · rename_i number
            have counted : items.length = (rawAt all counter).toNat := by simpa using number
            simp only [Bool.or_eq_true, decide_eq_true_eq, not_or] at inside
            exact .group (by omega) counted encoded
      | pad | int | bytes | struct => simp [Field.Admits] at shape

theorem Field.length_encode {f : Field} {owner : String} {all : List Slot} {s : Slot} {b : Bytes}
    (shape : f.Admits s)
    (below : ∀ element, f.element? = some element → element.EncodesExtent)
    (encoded : f.encode owner all s = .ok b) : b.length = f.reserve all := by
  cases Field.encodes_of_ok shape encoded with
  | int => exact Word.length_littleEndian _ _
  | pad => exact List.length_replicate
  | bytes short => exact Buffer.length_zeroFilled short
  | varBytes bounded short =>
    rw [Buffer.length_zeroFilled short, Field.reserve, Nat.min_eq_left bounded]
  | once whole =>
    simp only [Field.Admits] at shape
    exact below _ rfl _ b shape whole
  | array whole =>
    simp only [Field.Admits] at shape
    exact length_joined_items (below _ rfl) shape whole
  | group bounded counted whole =>
    simp only [Field.Admits] at shape
    rw [length_joined_items (below _ rfl) shape whole, Field.reserve, ← counted, Nat.min_eq_left bounded]

theorem length_joined_encodings {owner : String} {all : List Slot} {fields : List Field}
    {slots : List Slot} {b : Bytes} (shape : List.Forall₂ Field.Admits fields slots)
    (below : ∀ f ∈ fields, ∀ element, f.element? = some element → element.EncodesExtent)
    (encoded : joined (encodings owner all fields slots) = .ok b) :
    b.length = (fields.map (Field.reserve all)).sum := by
  induction shape generalizing b with
  | nil =>
    simp only [encodings, joined, Except.ok.injEq] at encoded
    simp [← encoded]
  | @cons f s fs ss first rest ih =>
    simp only [encodings] at encoded
    obtain ⟨x, y, here, tail, rfl⟩ := joined_cons_eq_ok.mp encoded
    have head := Field.length_encode first (below f (by simp)) here
    have others := ih (fun g later => below g (by simp [later])) tail
    simp only [List.length_append, List.map_cons, List.sum_cons, head, others]

theorem encodings_take (owner : String) (all : List Slot) (fields : List Field) (slots : List Slot)
    (i : Nat) : (encodings owner all fields slots).take i =
      encodings owner all (fields.take i) (slots.take i) := by
  induction i generalizing fields slots with
  | zero => simp [encodings]
  | succ i ih =>
    cases fields with
    | nil => simp [encodings]
    | cons f fs =>
      cases slots with
      | nil => simp [encodings]
      | cons s ss => simp [encodings, ih]

private theorem Layout.Sound.encodesExtent {l : Layout} (sound : l.Sound) (static : l.size.isStatic = true) :
    l.EncodesExtent := by
  induction sound with
  | @mk name message size fields widths counters sized below elements ih =>
    intro slots b shape encoded
    have whole : (Layout.mk name message size fields).Sound := .mk widths counters sized below elements
    simp only [Layout.encode] at encoded
    have total := length_joined_encodings (Layout.admits_iff.mp shape)
      (fun f member element nested => ih f member element nested (below f member element nested)) encoded
    exact total.trans (whole.reserve_eq static slots)

theorem Field.Sound.encodesExtent {f : Field} (sound : f.Sound) (element : Layout)
    (nested : f.element? = some element) : element.EncodesExtent :=
  (sound.element element nested).encodesExtent (sound.static element nested)

theorem Layout.Sound.length_encode {l : Layout} (sound : l.Sound) {slots : List Slot} {b : Bytes}
    (shape : l.Admits slots) (encoded : l.encode slots = .ok b) : b.length = l.reserve slots := by
  obtain ⟨name, message, size, fields⟩ := l
  simp only [Layout.encode] at encoded
  exact length_joined_encodings (Layout.admits_iff.mp shape)
    (fun _ member => (sound.field member).encodesExtent) encoded

/-- The bytes of the member at a position in an encoding of the instance. -/
def Layout.memberBytes (l : Layout) (slots : List Slot) (i : Nat) (b : Bytes) : Bytes :=
  (b.drop ((l.fields.take i).map (Field.reserve slots)).sum).take
    (((l.fields[i]?).map (Field.reserve slots)).getD 0)

private theorem encode_member {owner : String} {all : List Slot} {fields : List Field} {slots : List Slot} {b : Bytes}
    (shape : List.Forall₂ Field.Admits fields slots)
    (below : ∀ f ∈ fields, ∀ element, f.element? = some element → element.EncodesExtent)
    (encoded : joined (encodings owner all fields slots) = .ok b) {i : Nat} {f : Field} {s : Slot}
    (here : fields[i]? = some f) (there : slots[i]? = some s) :
    f.encode owner all s =
      .ok ((b.drop ((fields.take i).map (Field.reserve all)).sum).take (f.reserve all)) := by
  induction shape generalizing b i with
  | nil => simp at here
  | @cons g t gs ts first rest ih =>
    simp only [encodings] at encoded
    obtain ⟨x, y, head, tail, rfl⟩ := joined_cons_eq_ok.mp encoded
    have length := Field.length_encode first (below g (by simp)) head
    cases i with
    | zero =>
      simp only [List.getElem?_cons_zero, Option.some.injEq] at here there
      subst here there
      simp [head, ← length]
    | succ i =>
      rw [ih (fun f later => below f (by simp [later])) tail (by simpa using here) (by simpa using there)]
      simp [← length]

theorem Layout.Sound.encode_memberBytes {l : Layout} (sound : l.Sound) {slots : List Slot} {b : Bytes}
    (shape : l.Admits slots) (encoded : l.encode slots = .ok b) {i : Nat} {f : Field} {s : Slot}
    (here : l.fields[i]? = some f) (there : slots[i]? = some s) :
    f.encode l.name slots s = .ok (l.memberBytes slots i b) := by
  obtain ⟨name, message, size, fields⟩ := l
  simp only [Layout.encode] at encoded
  rw [memberBytes, here]
  exact encode_member (Layout.admits_iff.mp shape) (fun _ member => (sound.field member).encodesExtent)
    encoded here there

end TradeWire

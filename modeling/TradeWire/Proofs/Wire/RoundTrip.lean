import TradeWire.Proofs.Wire.Decoding

/-! What an instance was encoded to decodes to the instance with its byte strings filled up. -/

set_option autoImplicit false
set_option relaxedAutoImplicit false

namespace TradeWire

private theorem Buffer.slice?_between {before data after : Bytes} {count : Nat} (size : data.length = count) :
    Buffer.slice? (before ++ data ++ after) before.length count = some data := by
  refine Buffer.slice?_eq_some.mpr ⟨by omega, by omega, ?_, ?_⟩
  · simp only [List.length_append]
    omega
  · simp [← size]

private theorem Field.raw_filledSlot {f : Field} {s : Slot} (shape : f.Admits s) (all : List Slot) :
    (f.filledSlot all s).raw = s.raw := by
  cases f with
  | primitive name type size kind =>
    cases kind with
    | int form => rfl
    | pad | bytes | varBytes =>
      cases s with
      | int => simp [Field.Admits] at shape
      | pad | bytes | struct | elems => rfl
  | nested name repetition element =>
    cases s with
    | pad | int | bytes | struct | elems => rfl

private theorem getElem?_filledFieldSlots (all : List Slot) {fields : List Field} {slots : List Slot} {i : Nat}
    {f : Field} {s : Slot} (here : fields[i]? = some f) (held : slots[i]? = some s) :
    (filledFieldSlots all fields slots)[i]? = some (f.filledSlot all s) := by
  induction i generalizing fields slots with
  | zero =>
    cases fields with
    | nil => cases here
    | cons g gs =>
      cases slots with
      | nil => cases held
      | cons t ts =>
        obtain rfl : g = f := by simpa using here
        obtain rfl : t = s := by simpa using held
        simp [filledFieldSlots]
  | succ i ih =>
    cases fields with
    | nil => cases here
    | cons g gs =>
      cases slots with
      | nil => cases held
      | cons t ts => simpa [filledFieldSlots] using ih (by simpa using here) (by simpa using held)

theorem Layout.getElem?_filledSlots {l : Layout} {slots : List Slot} {i : Nat} {f : Field} {s : Slot}
    (here : l.fields[i]? = some f) (held : slots[i]? = some s) :
    (l.filledSlots slots)[i]? = some (f.filledSlot slots s) := by
  obtain ⟨name, message, size, fields⟩ := l
  exact getElem?_filledFieldSlots slots here held

private theorem Layout.Admits.rawAt_filledSlots {l : Layout} {slots : List Slot} (shape : l.Admits slots) {i : Nat}
    {f : Field} (here : l.fields[i]? = some f) : rawAt (l.filledSlots slots) i = rawAt slots i := by
  obtain ⟨s, held, kind⟩ := forall₂_getElem? (Layout.admits_iff.mp shape) here
  simp only [rawAt, Layout.getElem?_filledSlots here held, held, Option.map_some, Option.getD_some,
    Field.raw_filledSlot kind]

theorem Layout.Admits.nestedRaw_filledSlots {l : Layout} {slots : List Slot} (shape : l.Admits slots)
    {i j : Nat} {outer : String} {element : Layout} {f : Field}
    (nested : l.fields[i]? = some (.nested outer .once element)) (held : element.fields[j]? = some f) :
    nestedRaw (l.filledSlots slots) i j = nestedRaw slots i j := by
  obtain ⟨s, there, kind⟩ := forall₂_getElem? (Layout.admits_iff.mp shape) nested
  cases s with
  | struct inner =>
    simp only [Field.Admits] at kind
    simp only [nestedRaw, Layout.getElem?_filledSlots nested there, there, Field.filledSlot,
      kind.rawAt_filledSlots held]
  | pad | int | bytes | elems => simp [Field.Admits] at kind

private theorem rawAt_append_left {slots more : List Slot} {i : Nat} (inside : i < slots.length) :
    rawAt (slots ++ more) i = rawAt slots i := by
  simp only [rawAt, List.getElem?_append_left inside]

/-- What an instance is encoded to decodes to the filled instance, wherever it stands. -/
def Layout.RoundTrips (l : Layout) : Prop :=
  ∀ slots b, l.Admits slots → l.encode slots = .ok b → ∀ before after : Bytes,
    l.decode (before ++ b ++ after) before.length =
      some (l.filledSlots slots, ((before ++ b).length : Int))

private theorem decodeTimes_joined {element : Layout} (each : element.RoundTrips) {items : List (List Slot)}
    (shape : ∀ item ∈ items, element.Admits item) {b : Bytes}
    (encoded : joined (items.map element.encode) = .ok b) (before after : Bytes) :
    decodeTimes element.decode items.length (before ++ b ++ after) before.length =
      some (items.map element.filledSlots, ((before ++ b).length : Int)) := by
  induction items generalizing b before with
  | nil =>
    simp only [List.map_nil, joined, Except.ok.injEq] at encoded
    simp [decodeTimes, ← encoded]
  | cons item rest ih =>
    obtain ⟨x, y, here, tail, rfl⟩ := joined_cons_eq_ok.mp encoded
    have first := each item x (shape item (by simp)) here before (y ++ after)
    have others := ih (fun other later => shape other (by simp [later])) tail (before ++ x)
    have buffer : before ++ (x ++ y) ++ after = before ++ x ++ (y ++ after) := by simp
    have again : before ++ x ++ (y ++ after) = before ++ x ++ y ++ after := by simp
    simp only [List.length_cons, decodeTimes, List.map_cons]
    rw [buffer, first]
    simp only
    rw [again, others]
    simp

/-- A member decodes to its filled slot where it was encoded, its counter being known. -/
theorem Field.decode_encode {f : Field} {owner : String} {all earlier : List Slot} {s : Slot} {b : Bytes}
    (sound : f.Sound) (below : ∀ element, f.element? = some element → element.RoundTrips)
    (shape : f.Admits s) (encoded : f.encode owner all s = .ok b)
    (counted : ∀ counter, f.counter? = some counter → rawAt earlier counter = rawAt all counter)
    (before after : Bytes) :
    f.decode earlier (before ++ b ++ after) before.length =
      some (f.filledSlot all s, ((before ++ b).length : Int)) := by
  cases Field.encodes_of_ok shape encoded with
  | @int name type size form s fits =>
    have length := Word.length_littleEndian size s.raw.toNat
    have value : intSlot size form (Word.littleEndian size s.raw.toNat) =
        .int s.raw ((form.symbols.bind (·.name? s.raw)).getD "") := by
      have raw := Word.ofField_littleEndian (sound.width _ _ _ _ rfl).2 fits
      simp only [Word.ofField] at raw
      simp only [intSlot, raw]
    simp only [Field.decode, Buffer.slice?_between length, Option.map_some, value, Field.filledSlot,
      List.length_append, length, Int.natCast_add]
  | @pad name type size =>
    have length : (List.replicate size (0 : UInt8)).length = size := List.length_replicate
    simp only [Field.decode, Buffer.slice?_between length, Option.map_some, Field.filledSlot,
      List.length_append, length, Int.natCast_add]
  | bytes short =>
    have length := Buffer.length_zeroFilled short
    simp only [Field.decode, Buffer.slice?_between length, Option.map_some, Field.filledSlot,
      List.length_append, length, Int.natCast_add]
  | varBytes bounded short =>
    have length := Buffer.length_zeroFilled short
    simp only [Field.decode, counted _ rfl, Nat.not_lt.mpr bounded, if_false,
      Buffer.slice?_between length, Option.map_some, Field.filledSlot, List.length_append, length,
      Int.natCast_add]
  | once whole =>
    simp only [Field.Admits] at shape
    simp only [Field.decode, below _ rfl _ b shape whole before after, Option.map_some, Field.filledSlot]
  | array whole =>
    simp only [Field.Admits] at shape
    simp only [Field.decode, decodeTimes_joined (below _ rfl) shape whole before after, Option.map_some,
      Field.filledSlot]
  | group bounded number whole =>
    simp only [Field.Admits] at shape
    have found := decodeTimes_joined (below _ rfl) shape whole before after
    rw [number] at found bounded
    simp only [Field.decode, counted _ rfl, Nat.not_lt.mpr bounded, if_false, found, Option.map_some,
      Field.filledSlot]

/-- The members from some position on. The slots decoded before agree in their numbers with the
instance, and they cover every counter that comes up. -/
private theorem decodeFields_encodings {owner : String} {all : List Slot} {fields : List Field}
    {slots : List Slot} (shape : List.Forall₂ Field.Admits fields slots)
    (sound : ∀ f ∈ fields, f.Sound)
    (below : ∀ f ∈ fields, ∀ element, f.element? = some element → element.RoundTrips)
    {earlier : List Slot} (behind : all.drop earlier.length = slots)
    (agree : ∀ i, i < earlier.length → rawAt earlier i = rawAt all i)
    (counters : ∀ k f counter, fields[k]? = some f → f.counter? = some counter →
      counter < earlier.length + k) {b : Bytes}
    (encoded : joined (encodings owner all fields slots) = .ok b) (before after : Bytes) :
    decodeFields fields earlier (before ++ b ++ after) before.length =
      some (earlier ++ filledFieldSlots all fields slots, ((before ++ b).length : Int)) := by
  induction shape generalizing earlier b before with
  | nil =>
    simp only [encodings, joined, Except.ok.injEq] at encoded
    simp [decodeFields, filledFieldSlots, ← encoded]
  | @cons f s fs ss first rest ih =>
    simp only [encodings] at encoded
    obtain ⟨x, y, here, tail, rfl⟩ := joined_cons_eq_ok.mp encoded
    have buffer : before ++ (x ++ y) ++ after = before ++ x ++ (y ++ after) := by simp
    have again : before ++ x ++ (y ++ after) = before ++ x ++ y ++ after := by simp
    have decoded := Field.decode_encode (sound f (by simp)) (below f (by simp)) first
      here (fun counter governed => agree counter (counters 0 f counter (by simp) governed)) before
      (y ++ after)
    have own : rawAt all earlier.length = s.raw := by
      have at_end : all[earlier.length]? = some s := by
        rw [← List.head?_drop, behind, List.head?_cons]
      simp [rawAt, at_end]
    have grown : (earlier ++ [f.filledSlot all s]).length = earlier.length + 1 := by simp
    have left : all.drop (earlier ++ [f.filledSlot all s]).length = ss := by
      rw [grown, ← List.drop_drop, behind, List.drop_one, List.tail_cons]
    have others := ih (fun g later => sound g (by simp [later])) (fun g later => below g (by simp [later]))
      left
      (by
        intro i inside
        rw [grown] at inside
        by_cases old : i < earlier.length
        · rw [rawAt_append_left old]
          exact agree i old
        · have last : i = earlier.length := by omega
          subst last
          rw [own, ← Field.raw_filledSlot first all]
          simp [rawAt])
      (by
        intro k g counter there governed
        have bound := counters (k + 1) g counter (by simpa using there) governed
        rw [grown]
        omega) tail (before ++ x)
    rw [buffer]
    refine decodeFields_cons_eq_some.mpr ⟨_, _, decoded, ?_⟩
    rw [again, others]
    simp [filledFieldSlots]

theorem Layout.Sound.roundTrips {l : Layout} (sound : l.Sound) : l.RoundTrips := by
  induction sound with
  | @mk name message size fields widths counters sized static elements ih =>
    intro slots b shape encoded before after
    have whole : (Layout.mk name message size fields).Sound := .mk widths counters sized static elements
    simp only [Layout.encode] at encoded
    have decoded := decodeFields_encodings (Layout.admits_iff.mp shape)
      (fun f member => whole.field member) ih
      (show slots.drop ([] : List Slot).length = slots by simp) (by simp)
      (by
        intro k f counter here governed
        simpa using (counters k f counter here governed).1) encoded before after
    simpa [Layout.decode, Layout.filledSlots, Layout.fields] using decoded

mutual

/-- Every variable byte string of an instance is as long as its counter says, at any depth. -/
def Layout.IsCounted : Layout → List Slot → Prop
  | .mk _ _ _ fields, slots => FieldsAreCounted slots fields slots

/-- The variable byte strings of several members; `all` are the slots of the whole instance. -/
def FieldsAreCounted (all : List Slot) : List Field → List Slot → Prop
  | f :: fs, s :: ss => f.IsCounted all s ∧ FieldsAreCounted all fs ss
  | _, _ => True

def Field.IsCounted (all : List Slot) : Field → Slot → Prop
  | .primitive _ _ _ (.varBytes counter), s => s.data.length = (rawAt all counter).toNat
  | .nested _ _ element, .struct slots => element.IsCounted slots
  | .nested _ _ element, .elems items => ∀ item ∈ items, element.IsCounted item
  | _, _ => True

end

mutual

def Layout.decideIsCounted : (l : Layout) → (slots : List Slot) → Decidable (l.IsCounted slots)
  | .mk name message size fields, slots =>
    have : Decidable (FieldsAreCounted slots fields slots) := decideFieldsAreCounted slots fields slots
    decidable_of_iff (FieldsAreCounted slots fields slots) (by rw [Layout.IsCounted])

def decideFieldsAreCounted (all : List Slot) :
    (fields : List Field) → (slots : List Slot) → Decidable (FieldsAreCounted all fields slots)
  | f :: fs, s :: ss =>
    have : Decidable (f.IsCounted all s) := f.decideIsCounted all s
    have : Decidable (FieldsAreCounted all fs ss) := decideFieldsAreCounted all fs ss
    decidable_of_iff (f.IsCounted all s ∧ FieldsAreCounted all fs ss) (by rw [FieldsAreCounted])
  | [], _ => .isTrue (by simp [FieldsAreCounted])
  | _ :: _, [] => .isTrue (by simp [FieldsAreCounted])

def Field.decideIsCounted (all : List Slot) : (f : Field) → (s : Slot) → Decidable (f.IsCounted all s)
  | .primitive name type size (.varBytes counter), s =>
    decidable_of_iff (s.data.length = (rawAt all counter).toNat) (by rw [Field.IsCounted])
  | .primitive _ _ _ (.int _), _ | .primitive _ _ _ .pad, _ | .primitive _ _ _ (.bytes _), _ =>
    .isTrue (by simp [Field.IsCounted])
  | .nested _ _ element, .struct slots =>
    have : Decidable (element.IsCounted slots) := element.decideIsCounted slots
    decidable_of_iff (element.IsCounted slots) (by rw [Field.IsCounted])
  | .nested _ _ element, .elems items =>
    have : DecidablePred element.IsCounted := fun slots => element.decideIsCounted slots
    decidable_of_iff (∀ item ∈ items, element.IsCounted item) (by rw [Field.IsCounted])
  | .nested _ _ _, .pad | .nested _ _ _, .int _ _ | .nested _ _ _, .bytes _ =>
    .isTrue (by simp [Field.IsCounted])

end

instance (l : Layout) (slots : List Slot) : Decidable (l.IsCounted slots) := l.decideIsCounted slots

private theorem dropTrailing_zeroFilled (length : Nat) (data : Bytes) :
    Text.dropTrailing (· == 0) (Buffer.zeroFilled length data) = Text.dropTrailing (· == 0) data := by
  have zeros : ∀ n, (List.replicate n (0 : UInt8) ++ data.reverse).dropWhile (· == 0) =
      data.reverse.dropWhile (· == 0) := by
    intro n
    induction n with
    | zero => rfl
    | succ n ih => simp [List.replicate_succ, ih]
  simp only [Text.dropTrailing, Buffer.zeroFilled, List.reverse_append, List.reverse_replicate, zeros]

private theorem zeroFilled_of_length_eq {length : Nat} {data : Bytes} (full : data.length = length) :
    Buffer.zeroFilled length data = data := by
  simp [Buffer.zeroFilled, full]

/-- Trimming takes the filling of a layout's byte strings away. -/
def Layout.TrimsFilling (l : Layout) : Prop :=
  ∀ slots, l.Admits slots → l.IsCounted slots →
    sameSlots (l.trimSlots (l.filledSlots slots)) (l.trimSlots slots) = true

private theorem sameItems_map {element : Layout} (trims : element.TrimsFilling) {items : List (List Slot)}
    (shape : ∀ item ∈ items, element.Admits item) (counted : ∀ item ∈ items, element.IsCounted item) :
    sameItems ((items.map element.filledSlots).map element.trimSlots) (items.map element.trimSlots) =
      true := by
  induction items with
  | nil => rfl
  | cons item rest ih =>
    have here := trims item (shape item (by simp)) (counted item (by simp))
    have others := ih (fun other later => shape other (by simp [later]))
      (fun other later => counted other (by simp [later]))
    simpa [sameItems, here] using others

private theorem Field.same_trimSlot_filledSlot {f : Field} {all : List Slot} {s : Slot} (shape : f.Admits s)
    (counted : f.IsCounted all s)
    (below : ∀ element, f.element? = some element → element.TrimsFilling) :
    (f.trimSlot (f.filledSlot all s)).same (f.trimSlot s) = true := by
  cases f with
  | primitive name type size kind =>
    cases s with
    | pad =>
      cases kind with
      | pad => simp [Field.filledSlot, Field.trimSlot, Slot.same]
      | int | bytes | varBytes => simp [Field.Admits] at shape
    | int raw symbol =>
      cases kind with
      | int form => simp [Field.filledSlot, Field.trimSlot, Slot.same, Slot.raw]
      | pad | bytes | varBytes => simp [Field.Admits] at shape
    | bytes data =>
      cases kind with
      | bytes initial =>
        simp [Field.filledSlot, Field.trimSlot, Slot.same, Slot.data, dropTrailing_zeroFilled]
      | varBytes counter =>
        have full : data.length = (rawAt all counter).toNat := by
          simpa [Field.IsCounted, Slot.data] using counted
        simp [Field.filledSlot, Field.trimSlot, Slot.same, Slot.data, zeroFilled_of_length_eq full]
      | int | pad => simp [Field.Admits] at shape
    | struct slots | elems items => cases kind <;> simp [Field.Admits] at shape
  | nested name repetition element =>
    have trims := below element rfl
    cases s with
    | struct slots =>
      obtain ⟨_, _, same, admitted⟩ := shape.struct_inv
      cases same
      simp only [Field.IsCounted] at counted
      simpa [Field.filledSlot, Field.trimSlot, Slot.same] using trims slots admitted counted
    | elems items =>
      obtain ⟨_, _, _, same, _, admitted⟩ := shape.elems_inv
      cases same
      simp only [Field.IsCounted] at counted
      simpa [Field.filledSlot, Field.trimSlot, Slot.same] using sameItems_map trims admitted counted
    | pad | int | bytes => cases repetition <;> simp [Field.Admits] at shape

private theorem same_trimFieldSlots {all : List Slot} {fields : List Field} {slots : List Slot}
    (shape : List.Forall₂ Field.Admits fields slots) (counted : FieldsAreCounted all fields slots)
    (below : ∀ f ∈ fields, ∀ element, f.element? = some element → element.TrimsFilling) :
    sameSlots (trimFieldSlots fields (filledFieldSlots all fields slots)) (trimFieldSlots fields slots) =
      true := by
  induction shape with
  | nil => rfl
  | @cons f s fs ss first rest ih =>
    simp only [FieldsAreCounted] at counted
    have here := Field.same_trimSlot_filledSlot first counted.1 (below f (by simp))
    have others := ih counted.2 fun g later => below g (by simp [later])
    simp only [filledFieldSlots, trimFieldSlots, sameSlots, here, others, Bool.and_self]

theorem Layout.trimsFilling (l : Layout) : l.TrimsFilling := by
  induction l using Layout.nesting with
  | step name message size fields ih =>
    intro slots shape counted
    simp only [Layout.IsCounted] at counted
    simp only [Layout.trimSlots, Layout.filledSlots]
    exact same_trimFieldSlots (Layout.admits_iff.mp shape) counted ih

end TradeWire

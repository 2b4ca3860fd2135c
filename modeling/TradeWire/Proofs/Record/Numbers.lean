import TradeWire.Proofs.Record.Lookups
import TradeWire.Proofs.Record.Paths

/-! What changes the numbers in the structures of a record, told by their names. -/

set_option autoImplicit false
set_option relaxedAutoImplicit false

namespace TradeWire

/-- An integer in a structure of a layout, by the positions of both and by its name. Nothing in the
structure depends on a counter. -/
inductive Layout.NumberAt (l : Layout) (i j : Nat) (name : String) : Prop
  | mk {outer type : String} {element : Layout} {size : Nat} {form : IntForm}
      (nested : l.fields[i]? = some (.nested outer .once element))
      (steady : ∀ f ∈ element.fields, f.counter? = none)
      (held : element.fields[j]? = some (.primitive name type size (.int form))) : NumberAt l i j name

theorem Layout.Sound.numberAt {l element : Layout} (sound : l.Sound) {i j : Nat} {outer name : String}
    (nested : l.fields[i]? = some (.nested outer .once element)) (held : element.HasIntAt j name) :
    l.NumberAt i j name := by
  obtain ⟨type, size, form, here⟩ := held
  have field := sound.field (List.mem_of_getElem? nested)
  refine .mk nested ?_ here
  intro f member
  have constant := (field.element element rfl).not_dynamic (field.static element rfl) member
  cases governed : f.counter? with
  | none => rfl
  | some counter =>
    rw [f.isDynamic_of_counter? governed] at constant
    cases constant

namespace Layout.NumberAt

variable {l : Layout} {i j : Nat} {name : String}

theorem name_eq (at_ : l.NumberAt i j name) {other : String} (also : l.NumberAt i j other) :
    name = other := by
  obtain ⟨nested, _, held⟩ := at_
  obtain ⟨again, _, there⟩ := also
  cases nested.symm.trans again
  cases held.symm.trans there
  rfl

theorem slot (at_ : l.NumberAt i j name) {slots : List Slot} (shape : l.Admits slots) :
    ∃ inner raw symbol, slots[i]? = some (.struct inner) ∧ inner[j]? = some (.int raw symbol) := by
  obtain ⟨nested, _, held⟩ := at_
  obtain ⟨s, there, kind⟩ := forall₂_getElem? (Layout.admits_iff.mp shape) nested
  cases s with
  | struct inner =>
    obtain ⟨_, _, same, below⟩ := kind.struct_inv
    cases same
    obtain ⟨raw, symbol, here⟩ := holdsInt_of_forall₂ (Layout.admits_iff.mp below) held
    exact ⟨inner, raw, symbol, there, here⟩
  | pad | int | bytes | elems => simp [Field.Admits] at kind

end Layout.NumberAt

private theorem setNestedRaw_eq_modifySlots (slots : List Slot) (i j : Nat) (raw : UInt64) :
    setNestedRaw slots i j raw = Record.modifySlots (·.withRaw raw) [⟨i, none⟩] j slots := by
  unfold setNestedRaw Record.modifySlots
  congr 1
  funext s
  cases s with
  | pad | int | bytes | struct | elems => rfl

theorem nestedRaw_modifySlots {slots inner : List Slot} {i j : Nat} {s : Slot}
    (there : slots[i]? = some (.struct inner)) (here : inner[j]? = some s) (change : Slot → Slot) :
    nestedRaw (Record.modifySlots change [⟨i, none⟩] j slots) i j = (change s).raw := by
  simp [nestedRaw, Record.modifySlots, there, rawAt, here]

/-- A change in one structure leaves the numbers at all other places alone. -/
theorem nestedRaw_modifySlots_of_ne {i j k n : Nat} (apart : ¬(i = k ∧ j = n)) (slots : List Slot)
    (change : Slot → Slot) :
    nestedRaw (Record.modifySlots change [⟨i, none⟩] j slots) k n = nestedRaw slots k n := by
  unfold nestedRaw Record.modifySlots
  rw [List.getElem?_modify]
  by_cases same : i = k
  · subst same
    have other : j ≠ n := fun equal => apart ⟨rfl, equal⟩
    cases slots[i]? with
    | none => rfl
    | some s =>
      cases s with
      | struct inner => simp [Record.modifySlots, rawAt, other]
      | pad | int | bytes | elems => simp
  · simp [same]

theorem nestedRaw_setNestedRaw {slots inner : List Slot} {i j : Nat} {old : UInt64} {symbol : String}
    (there : slots[i]? = some (.struct inner)) (here : inner[j]? = some (.int old symbol)) (raw : UInt64) :
    nestedRaw (setNestedRaw slots i j raw) i j = raw := by
  rw [setNestedRaw_eq_modifySlots, nestedRaw_modifySlots there here]
  rfl

theorem nestedRaw_setNestedRaw_of_ne {i j k n : Nat} (apart : ¬(i = k ∧ j = n)) (slots : List Slot)
    (raw : UInt64) : nestedRaw (setNestedRaw slots i j raw) k n = nestedRaw slots k n := by
  rw [setNestedRaw_eq_modifySlots, nestedRaw_modifySlots_of_ne apart]

theorem rawAt_setNestedRaw (slots : List Slot) (i j k : Nat) (raw : UInt64) :
    rawAt (setNestedRaw slots i j raw) k = rawAt slots k := by
  simp only [rawAt, setNestedRaw, List.getElem?_modify]
  by_cases same : i = k
  · subst same
    cases slots[i]? with
    | none => rfl
    | some s =>
      cases s with
      | pad | int | bytes | struct | elems => simp [Slot.raw]
  · simp [same]

private theorem Field.raw_syncSlot (f : Field) (s : Slot) : (f.syncSlot s).raw = s.raw := by
  cases f with
  | primitive => rfl
  | nested name repetition element =>
    cases s with
    | pad | int | bytes | struct | elems => rfl

theorem getElem?_syncFieldSlots {fields : List Field} {i : Nat} {f : Field} (here : fields[i]? = some f)
    (slots : List Slot) : (syncFieldSlots fields slots)[i]? = slots[i]?.map f.syncSlot := by
  induction i generalizing fields slots with
  | zero =>
    cases fields with
    | nil => cases here
    | cons g gs =>
      obtain rfl : g = f := by simpa using here
      cases slots with
      | nil => rfl
      | cons t ts => rfl
  | succ i ih =>
    cases fields with
    | nil => cases here
    | cons g gs =>
      cases slots with
      | nil => rfl
      | cons t ts => simpa [syncFieldSlots] using ih (by simpa using here) ts

private theorem setCounters_of_steady {fields : List Field} (steady : ∀ f ∈ fields, f.counter? = none)
    (slots : List Slot) : setCounters fields slots = slots := by
  unfold setCounters
  refine List.foldlRecOn (motive := fun acc => acc = slots) _ _ rfl ?_
  rintro acc same ⟨f, s⟩ member
  simp only [steady f (List.of_mem_zip member).1]
  exact same

private theorem getElem?_setCounters_struct (fields : List Field) {slots inner : List Slot} {i : Nat}
    (there : slots[i]? = some (.struct inner)) : (setCounters fields slots)[i]? = some (.struct inner) := by
  unfold setCounters
  refine List.foldlRecOn (motive := fun acc : List Slot => acc[i]? = some (Slot.struct inner)) _ _ there ?_
  rintro acc holds ⟨f, s⟩ _
  simp only
  split
  · rename_i counter _
    rw [setRawAt, List.getElem?_modify, holds]
    by_cases same : counter = i
    · simp [same, Slot.withRaw]
    · simp [same]
  · exact holds

namespace Record

/-- A change that leaves the numbers in the structures of a record alone, but for those of some names. -/
structure KeepsNumbers (except : List String) (r next : Record) : Prop where
  layout : next.layout = r.layout
  reachable : ∀ l, Reachable l r → Reachable l next
  numbers : ∀ (i j : Nat) (name : String), r.layout.NumberAt i j name → name ∉ except →
    nestedRaw next.slots i j = nestedRaw r.slots i j

theorem KeepsNumbers.refl (except : List String) (r : Record) : KeepsNumbers except r r :=
  ⟨rfl, fun _ reached => reached, fun _ _ _ _ _ => rfl⟩

theorem KeepsNumbers.trans {except others : List String} {r mid next : Record}
    (first : KeepsNumbers except r mid) (second : KeepsNumbers others mid next) :
    KeepsNumbers (except ++ others) r next := by
  refine ⟨second.layout.trans first.layout, fun l reached => second.reachable l (first.reachable l reached), ?_⟩
  intro i j name at_ fresh
  rw [List.mem_append, not_or] at fresh
  rw [second.numbers i j name (first.layout ▸ at_) fresh.2]
  exact first.numbers i j name at_ fresh.1

theorem LeavesStructures.keepsNumbers {r next : Record} (leaves : LeavesStructures r next) :
    KeepsNumbers [] r next := by
  refine ⟨leaves.layout, leaves.reachable, ?_⟩
  intro i j name at_ _
  obtain ⟨nested, _, _⟩ := at_
  simp only [nestedRaw, leaves.structures i _ _ _ nested]

theorem keepsNumbers_syncCounters {r : Record} (shape : r.HasShape) : KeepsNumbers [] r r.syncCounters := by
  refine ⟨rfl, fun l reached => .change reached (.syncCounters r), ?_⟩
  intro i j name at_ _
  obtain ⟨inner, raw, symbol, there, here⟩ := at_.slot shape
  obtain ⟨nested, steady, held⟩ := at_
  rename_i outer type element size form
  obtain ⟨layout, slots⟩ := r
  obtain ⟨own, message, whole, fields⟩ := layout
  obtain ⟨elementName, elementMessage, elementSize, elementFields⟩ := element
  simp only [syncCounters, Layout.syncSlots, Layout.fields] at *
  -- the structure is synchronised as well, which changes nothing where no field has a counter
  have synced := getElem?_setCounters_struct fields
    (by rw [getElem?_syncFieldSlots nested, there]; rfl)
  have number := getElem?_syncFieldSlots held inner
  simp only [nestedRaw, synced, there, Layout.syncSlots, setCounters_of_steady steady, rawAt, number, here,
    Option.map_some, Option.getD_some, Field.raw_syncSlot]

theorem keepsNumbers_updateLength {r : Record} {info : MessageInfo} (message : r.layout.message = some info)
    (at_ : r.layout.NumberAt info.header.field info.header.bodyLen "BodyLen") :
    KeepsNumbers ["BodyLen"] r r.updateLength := by
  refine ⟨r.layout_updateLength, fun l reached => .change reached (.updateLength r), ?_⟩
  intro i j name there fresh
  rcases r.updateLength_cases with same | ⟨other, again, same⟩
  · rw [same]
  · obtain rfl : info = other := Option.some.inj (message.symm.trans again)
    rw [same]
    refine nestedRaw_setNestedRaw_of_ne ?_ _ _
    rintro ⟨rfl, rfl⟩
    exact fresh (by simp [there.name_eq at_])

end Record

end TradeWire

import TradeWire.Proofs.Record.Updates
import TradeWire.Proofs.Wire.Reading

/-! Records that can come about: fresh or read from a buffer, and then changed by the operations. -/

set_option autoImplicit false
set_option relaxedAutoImplicit false

namespace TradeWire

/-- A slot that remembers a symbol remembers the one that its number has. -/
def IntForm.Remembers (form : IntForm) (raw : UInt64) (symbol : String) : Prop :=
  ∀ symbols ∈ form.symbols, symbol = "" ∨ symbols.name? raw = some symbol

theorem IntForm.remembers_none (form : IntForm) (raw : UInt64) : form.Remembers raw "" :=
  fun _ _ => .inl rfl

theorem IntForm.remembers_name? (form : IntForm) (raw : UInt64) :
    form.Remembers raw ((form.symbols.bind (·.name? raw)).getD "") := by
  intro symbols enumerated
  rw [enumerated, Option.bind_some]
  cases symbols.name? raw with
  | none => exact .inl rfl
  | some symbol => exact .inr rfl

namespace Record

/-- One change of a record. A nested structure or an element may be changed in its place. -/
inductive Change : Record → Record → Prop
  | setUint {r next : Record} {path : String} {raw : UInt64}
      (set : r.setUint path raw = .ok next) : Change r next
  | setInt {r next : Record} {path : String} {value : Int}
      (set : r.setInt path value = .ok next) : Change r next
  | setEnum {r next : Record} {path symbol : String}
      (set : r.setEnum path symbol = .ok next) : Change r next
  | setDecimal {r next : Record} {lib : DecimalLibrary} {path text : String}
      (set : r.setDecimal lib path text = .ok next) : Change r next
  | setBytes {r next : Record} {path : String} {data : Bytes}
      (set : r.setBytes path data = .ok next) : Change r next
  | setText {r next : Record} {path text : String}
      (set : r.setText path text = .ok next) : Change r next
  | appendElem {r next fresh : Record} {path : String}
      (appended : r.appendElem path = .ok (next, fresh)) : Change r next
  | syncCounters (r : Record) : Change r r.syncCounters
  | updateLength (r : Record) : Change r r.updateLength
  | trim (r : Record) : Change r r.trim
  | inStructure {r inner : Record} {path name : String} {place : Location} {element : Layout}
      {slots : List Slot}
      (located : r.locate path = .ok (place, .nested name .once element, .struct slots))
      (change : Change ⟨element, slots⟩ inner) : Change r (r.modify place fun _ => .struct inner.slots)
  | inElement {r inner : Record} {path name : String} {place : Location} {repetition : Repetition}
      {element : Layout} {items : List (List Slot)} {n : Nat} {slots : List Slot}
      (located : r.locate path = .ok (place, .nested name repetition element, .elems items))
      (item : items[n]? = some slots) (change : Change ⟨element, slots⟩ inner) :
      Change r (r.modify place fun _ => .elems (items.set n inner.slots))

/-- A record of the layout that can come about. -/
inductive Reachable (l : Layout) : Record → Prop
  | new : Reachable l (Record.new l)
  | unpack {buf : Bytes} {off stop : Int} {r : Record} (unpacked : Record.unpack l buf off = .ok (r, stop)) :
      Reachable l r
  | change {r next : Record} (before : Reachable l r) (changed : Change r next) : Reachable l next

def HasShape (r : Record) : Prop := r.layout.Admits r.slots

theorem locate_of_locateInt {r : Record} {path : String} {place : Location} {size : Nat} {form : IntForm}
    {s : Slot} (located : r.locateInt path = .ok (place, size, form, s)) :
    ∃ name type, r.locate path = .ok (place, .primitive name type size (.int form), s) := by
  unfold locateInt at located
  split at located
  · cases located
  · rename_i found
    cases located
    exact ⟨_, _, found⟩
  · cases located

theorem locate_of_locateBytes {r : Record} {path : String} {place : Location} {s : Slot}
    (located : r.locateBytes path = .ok (place, s)) :
    ∃ f, r.locate path = .ok (place, f, s) ∧ f.element? = none ∧
      ∀ data t, f.Admits t → f.Admits (.bytes data) := by
  unfold locateBytes at located
  split at located
  · cases located
  · rename_i found
    cases located
    exact ⟨_, found, rfl, fun data t _ => by simp [Field.Admits]⟩
  · rename_i found
    cases located
    exact ⟨_, found, rfl, fun data t _ => by simp [Field.Admits]⟩
  · cases located

/-- An integer field has been set: the record is the same but for the pattern and symbol of that field,
and these belong together. -/
inductive SetsInteger (r : Record) (path : String) : Record → Prop
  | intro {place : Location} {size : Nat} {form : IntForm} {s : Slot} {raw : UInt64} {symbol : String}
      (located : r.locateInt path = .ok (place, size, form, s)) (remembers : form.Remembers raw symbol) :
      SetsInteger r path (r.modify place fun _ => .int raw symbol)

section Setters

variable {r next : Record} {path : String}

theorem setsInteger_of_setUint {raw : UInt64} (set : r.setUint path raw = .ok next) :
    SetsInteger r path next := by
  rw [setUint_eq] at set
  split at set
  · cases set
  · rename_i located
    split at set
    · -- the pattern is taken as it is or widened first
      split at set
      all_goals
        simp only at set
        split at set
        · cases set
          exact .intro located (IntForm.remembers_none _ _)
        · cases set
    · cases set
      exact .intro located (IntForm.remembers_none _ _)

theorem setsInteger_of_setInt {value : Int} (set : r.setInt path value = .ok next) :
    SetsInteger r path next := by
  rw [setInt_eq] at set
  split at set
  · cases set
  · rename_i located
    split at set
    · cases set
    · cases set
      exact .intro located (IntForm.remembers_none _ _)

theorem setsInteger_of_setEnum {symbol : String} (set : r.setEnum path symbol = .ok next) :
    SetsInteger r path next := by
  rw [setEnum_eq] at set
  split at set
  · cases set
  · rename_i form _ located
    split at set
    · cases set
    · rename_i enumerated
      split at set
      · cases set
      · rename_i raw _
        cases set
        have current := form.remembers_name? raw
        rw [enumerated, Option.bind_some] at current
        exact .intro located current

theorem setsInteger_of_setDecimal {lib : DecimalLibrary} {text : String}
    (set : r.setDecimal lib path text = .ok next) :
    SetsInteger r path next := by
  rw [setDecimal_eq] at set
  split at set
  · cases set
  · rename_i located
    split at set
    · cases set
    · cases set
    · split at set
      · cases set
      · cases set
        exact .intro located (IntForm.remembers_none _ _)

theorem setBytes_eq_ok {data : Bytes} (set : r.setBytes path data = .ok next) :
    ∃ place s, r.locateBytes path = .ok (place, s) ∧ next = r.modify place fun _ => .bytes data := by
  rw [setBytes_eq] at set
  split at set
  · cases set
  · rename_i place s located
    cases set
    exact ⟨place, s, located, rfl⟩

/-- A fresh element has been added behind those of the group that the path leads to. -/
theorem appendElem_eq_ok {fresh : Record} (appended : r.appendElem path = .ok (next, fresh)) :
    ∃ place name counter least most element s,
      r.locate path = .ok (place, .nested name (.group counter least most) element, s) ∧
        next = r.modify place (appendItem element.initialSlots) ∧ fresh = new element := by
  rw [appendElem_eq] at appended
  split at appended
  · cases appended
  · rename_i place name counter least most element s located
    cases appended
    exact ⟨place, name, counter, least, most, element, s, located, rfl, rfl⟩
  · cases appended

/-- Updating the length of a record leaves it as it is or sets one number in its header. -/
theorem updateLength_cases (r : Record) : r.updateLength = r ∨ ∃ info, r.layout.message = some info ∧
    r.updateLength =
      ⟨r.layout, setNestedRaw r.slots info.header.field info.header.bodyLen (Word.ofInt r.encodedSize)⟩ := by
  unfold updateLength
  split
  · exact .inl rfl
  · rename_i info message
    split
    · exact .inl rfl
    · exact .inr ⟨info, message, rfl⟩

theorem layout_updateLength (r : Record) : r.updateLength.layout = r.layout := by
  rcases r.updateLength_cases with same | ⟨info, _, same⟩
  · rw [same]
  · rw [same]

private theorem SetsInteger.keeps (sets : SetsInteger r path next) (shape : r.HasShape) :
    next.layout = r.layout ∧ next.HasShape := by
  obtain ⟨located, _⟩ := sets
  obtain ⟨name, type, found⟩ := locate_of_locateInt located
  exact ⟨rfl, admits_modify shape found fun t _ => by simp [Field.Admits]⟩

private theorem keeps_setBytes {data : Bytes} (shape : r.HasShape) (set : r.setBytes path data = .ok next) :
    next.layout = r.layout ∧ next.HasShape := by
  obtain ⟨place, s, located, rfl⟩ := setBytes_eq_ok set
  obtain ⟨f, found, _, kind⟩ := locate_of_locateBytes located
  exact ⟨rfl, admits_modify shape found fun t admitted => kind data t admitted⟩

end Setters

theorem Change.keeps {r next : Record} (changed : Change r next) (shape : r.HasShape) :
    next.layout = r.layout ∧ next.HasShape := by
  induction changed with
  | setUint set => exact (setsInteger_of_setUint set).keeps shape
  | setInt set => exact (setsInteger_of_setInt set).keeps shape
  | setEnum set => exact (setsInteger_of_setEnum set).keeps shape
  | setDecimal set => exact (setsInteger_of_setDecimal set).keeps shape
  | setBytes set => exact keeps_setBytes shape set
  | setText set => exact keeps_setBytes shape set
  | appendElem appended =>
    obtain ⟨place, name, counter, least, most, element, s, located, rfl, rfl⟩ := appendElem_eq_ok appended
    refine ⟨rfl, admits_modify shape located ?_⟩
    intro t kind
    cases t with
    | elems items =>
      simp only [Field.Admits, appendItem] at kind ⊢
      intro item member
      rcases List.mem_append.mp member with old | new
      · exact kind item old
      · have same : item = element.initialSlots := by simpa using new
        exact same ▸ element.admits_initialSlots
    | pad | int | bytes | struct => simp [Field.Admits] at kind
  | syncCounters r => exact ⟨rfl, r.layout.admits_syncSlots r.slots shape⟩
  | updateLength r =>
    rcases r.updateLength_cases with same | ⟨info, _, same⟩
    · rw [same]
      exact ⟨rfl, shape⟩
    · rw [same]
      exact ⟨rfl, Layout.admits_setNestedRaw shape _ _ _⟩
  | trim r => exact ⟨rfl, r.layout.admits_trimSlots r.slots shape⟩
  | @inStructure r inner path name place element slots located change ih =>
    have kind := admits_of_locate shape located
    simp only [Field.Admits] at kind
    obtain ⟨same, below⟩ := ih kind
    refine ⟨rfl, admits_modify shape located ?_⟩
    intro t _
    simp only [HasShape, same] at below
    simpa [Field.Admits] using below
  | @inElement r inner path name place repetition element items n slots located item change ih =>
    have kind := admits_of_locate shape located
    obtain ⟨_, _, _, same, many, all⟩ := kind.elems_inv
    cases same
    obtain ⟨same, below⟩ := ih (all slots (List.mem_of_getElem? item))
    simp only [HasShape, same] at below
    refine ⟨rfl, admits_modify shape located ?_⟩
    intro t _
    refine (Field.admits_elems many).mpr ?_
    intro one member
    rcases List.mem_or_eq_of_mem_set member with old | new
    · exact all one old
    · exact new ▸ below

/-- Every record that can come about is of its layout and has its shape. -/
theorem Reachable.hasShape {l : Layout} {r : Record} (reached : Reachable l r) :
    r.layout = l ∧ r.HasShape := by
  induction reached with
  | new => exact ⟨rfl, l.admits_initialSlots⟩
  | unpack unpacked =>
    obtain ⟨same, shape⟩ := admits_of_unpack unpacked
    exact ⟨same, by rw [HasShape, same]; exact shape⟩
  | change before changed ih =>
    obtain ⟨same, shape⟩ := changed.keeps ih.2
    exact ⟨same.trans ih.1, shape⟩

end Record

end TradeWire

import TradeWire.Proofs.Layout.WellFormed
import TradeWire.Proofs.Record.Numbers
import TradeWire.Proofs.Wire.Validity

/-! A fresh instance is valid exactly when its integers fit, and takes no bytes for dynamic fields. -/

set_option autoImplicit false
set_option relaxedAutoImplicit false

namespace TradeWire

/-- An integer in the value of a field, at any depth: its width, whether it is signed, and its raw number. -/
inductive Field.HoldsInteger : Field → Slot → Nat → Bool → UInt64 → Prop
  | int {name type : String} {size : Nat} {form : IntForm} (s : Slot) :
      HoldsInteger (.primitive name type size (.int form)) s size form.isSigned s.raw
  | struct {name : String} {repetition : Repetition} {element : Layout} {slots : List Slot} {i : Nat}
      {f : Field} {s : Slot} {size : Nat} {signed : Bool} {raw : UInt64} (here : element.fields[i]? = some f)
      (there : slots[i]? = some s) (below : HoldsInteger f s size signed raw) :
      HoldsInteger (.nested name repetition element) (.struct slots) size signed raw
  | item {name : String} {repetition : Repetition} {element : Layout} {items : List (List Slot)}
      {slots : List Slot} {i : Nat} {f : Field} {s : Slot} {size : Nat} {signed : Bool} {raw : UInt64}
      (listed : slots ∈ items) (here : element.fields[i]? = some f) (there : slots[i]? = some s)
      (below : HoldsInteger f s size signed raw) :
      HoldsInteger (.nested name repetition element) (.elems items) size signed raw

/-- Every integer in the value of a field is in the range of its own field. -/
def Field.IntegersFit (f : Field) (s : Slot) : Prop :=
  ∀ size signed raw, f.HoldsInteger s size signed raw → Word.IsInRange raw size signed

/-- Every integer of an instance, at any depth, is in the range of its field. -/
def Layout.IntegersFit (l : Layout) (slots : List Slot) : Prop :=
  ∀ (i : Nat) (f : Field) (s : Slot), l.fields[i]? = some f → slots[i]? = some s → f.IntegersFit s

namespace Field

variable {name : String} {repetition : Repetition} {element : Layout}

private theorem integersFit_int {type : String} {size : Nat} {form : IntForm} {s : Slot} :
    (primitive name type size (.int form)).IntegersFit s ↔ Word.IsInRange s.raw size form.isSigned := by
  constructor
  · intro fit
    exact fit _ _ _ (.int s)
  · intro range _ _ _ held
    cases held
    exact range

private theorem integersFit_struct {slots : List Slot} :
    (nested name repetition element).IntegersFit (.struct slots) ↔ element.IntegersFit slots := by
  constructor
  · intro fit i f s here there size signed raw held
    exact fit size signed raw (.struct here there held)
  · intro fit size signed raw held
    cases held with
    | struct here there below => exact fit _ _ _ here there _ _ _ below

private theorem integersFit_elems {items : List (List Slot)} :
    (nested name repetition element).IntegersFit (.elems items) ↔
      ∀ slots ∈ items, element.IntegersFit slots := by
  constructor
  · intro fit slots listed i f s here there size signed raw held
    exact fit size signed raw (.item listed here there held)
  · intro fit size signed raw held
    cases held with
    | item listed here there below => exact fit _ listed _ _ _ here there _ _ _ below

end Field

private theorem fieldsAreValid_iff {all : List Slot} {fields : List Field} {slots : List Slot} :
    FieldsAreValid all fields slots ↔
      ∀ (i : Nat) f s, fields[i]? = some f → slots[i]? = some s → f.IsValid all s := by
  induction fields generalizing slots with
  | nil => simp [FieldsAreValid]
  | cons f rest ih =>
    cases slots with
    | nil => simp [FieldsAreValid]
    | cons s others =>
      rw [FieldsAreValid, ih]
      constructor
      · rintro ⟨first, later⟩ (_ | i) g u here there
        · cases here
          cases there
          exact first
        · exact later i g u here there
      · intro each
        exact ⟨each 0 f s rfl rfl, fun i g u here there => each (i + 1) g u here there⟩

theorem Layout.isValid_iff {l : Layout} {slots : List Slot} :
    l.IsValid slots ↔ ∀ (i : Nat) f s, l.fields[i]? = some f → slots[i]? = some s → f.IsValid slots s := by
  obtain ⟨name, message, size, fields⟩ := l
  exact fieldsAreValid_iff

private theorem Field.integersFit_of_isValid {f : Field} {all : List Slot} {s : Slot}
    (below : ∀ element, f.element? = some element → ∀ slots, element.Admits slots → element.IsValid slots →
      element.IntegersFit slots)
    (shape : f.Admits s) (valid : f.IsValid all s) : f.IntegersFit s := by
  cases f with
  | primitive name type size kind =>
    cases kind with
    | int form => exact Field.integersFit_int.mpr valid
    | pad | bytes | varBytes =>
      intro _ _ _ held
      cases held
  | nested name repetition element =>
    have items : ∀ held : List (List Slot), (∀ slots ∈ held, element.Admits slots) →
        (∀ slots ∈ held, element.IsValid slots) →
          (Field.nested name repetition element).IntegersFit (.elems held) := fun held shapes good =>
      Field.integersFit_elems.mpr fun slots listed =>
        below element rfl slots (shapes slots listed) (good slots listed)
    cases repetition with
    | once =>
      cases s with
      | struct slots => exact Field.integersFit_struct.mpr (below element rfl slots shape valid)
      | pad | int | bytes | elems => simp [Field.Admits] at shape
    | array count =>
      cases s with
      | elems held => exact items held shape valid.2
      | pad | int | bytes | struct => simp [Field.Admits] at shape
    | group counter least most =>
      cases s with
      | elems held => exact items held shape valid.2.2.2
      | pad | int | bytes | struct => simp [Field.Admits] at shape

private theorem Layout.integersFit_of_isValid (l : Layout) :
    ∀ slots, l.Admits slots → l.IsValid slots → l.IntegersFit slots := by
  induction l using Layout.nesting with
  | step name message size fields ih =>
    intro slots shape valid i f s here there
    obtain ⟨other, again, kind⟩ := forall₂_getElem? (Layout.admits_iff.mp shape) here
    obtain rfl : other = s := Option.some.inj (again.symm.trans there)
    exact Field.integersFit_of_isValid (ih f (List.mem_of_getElem? here)) kind
      (Layout.isValid_iff.mp valid i f other here there)

private theorem Field.isValid_of_fresh {f : Field} {all : List Slot} {s : Slot}
    (strings : ∀ name type size data, f = .primitive name type size (.bytes (some data)) → data.length ≤ size)
    (unset : ∀ counter, f.counter? = some counter → rawAt all counter = 0)
    (empty : f.isDynamic = true → f.countBounds.1 = 0)
    (below : ∀ element, f.element? = some element → element.IntegersFit element.initialSlots →
      element.IsValid element.initialSlots)
    (fresh : f.intForm? = none → s = f.initialSlot) (fit : f.IntegersFit s) : f.IsValid all s := by
  cases f with
  | primitive name type size kind =>
    cases kind with
    | int form => exact Field.integersFit_int.mp fit
    | pad => trivial
    | bytes initial =>
      rw [fresh rfl]
      cases initial with
      | none => exact Nat.zero_le _
      | some data => exact strings name type size data rfl
    | varBytes counter =>
      rw [fresh rfl]
      exact ⟨Nat.zero_le _, by simp [unset counter rfl]⟩
  | nested name repetition element =>
    rw [fresh rfl] at fit ⊢
    cases repetition with
    | once => exact below element rfl (Field.integersFit_struct.mp fit)
    | array count =>
      refine ⟨List.length_replicate, ?_⟩
      intro item listed
      have fits := Field.integersFit_elems.mp fit item listed
      rw [List.eq_of_mem_replicate listed] at fits ⊢
      exact below element rfl fits
    | group counter least most =>
      have free : least = 0 := empty rfl
      have zero := unset counter rfl
      simp [Field.initialSlot, Field.IsValid, zero, free]

/-- An instance that is fresh but for its own integers. -/
def Layout.IsBlank (l : Layout) (slots : List Slot) : Prop :=
  ∀ (i : Nat) f s, l.fields[i]? = some f → slots[i]? = some s → f.intForm? = none → s = f.initialSlot

private theorem getElem?_initialFieldSlots {fields : List Field} {i : Nat} {f : Field} {s : Slot}
    (here : fields[i]? = some f) (there : (initialFieldSlots fields)[i]? = some s) : s = f.initialSlot := by
  simpa [initialFieldSlots_eq_map, here, eq_comm] using there

private theorem Layout.isBlank_initialFieldSlots (l : Layout) : l.IsBlank (initialFieldSlots l.fields) :=
  fun _ _ _ here there _ => getElem?_initialFieldSlots here there

private theorem Field.withRaw_initialSlot {f : Field} (plain : f.intForm? = none) (raw : UInt64) :
    f.initialSlot.withRaw raw = f.initialSlot := by
  cases f with
  | primitive name type size kind =>
    cases kind with
    | int form => cases plain
    | pad | bytes | varBytes => rfl
  | nested name repetition element =>
    cases repetition with
    | once | array | group => rfl

private theorem Layout.IsBlank.setRawAt {l : Layout} {slots : List Slot} (blank : l.IsBlank slots) (j : Nat)
    (raw : UInt64) : l.IsBlank (setRawAt slots j raw) := by
  intro i f s here there plain
  rw [TradeWire.setRawAt, List.getElem?_modify] at there
  obtain ⟨old, before, rfl⟩ := Option.map_eq_some_iff.mp there
  rw [blank i f old here before plain]
  split
  · exact Field.withRaw_initialSlot plain raw
  · rfl

/-- The value of a field is fresh but for the integers of a structure in it. -/
def Field.IsNearlyFresh : Field → Slot → Prop
  | .nested _ .once element, .struct slots => element.IsBlank slots
  | f, s => s = f.initialSlot

private theorem Layout.isBlank_initialSlots {l : Layout} (component : l.isMessage = false) :
    l.IsBlank l.initialSlots := by
  obtain ⟨name, message, size, fields⟩ := l
  cases message with
  | none => exact Layout.isBlank_initialFieldSlots (.mk name none size fields)
  | some info => cases component

private theorem Field.isNearlyFresh_initialSlot {f : Field}
    (component : ∀ element, f.element? = some element → element.isMessage = false) :
    f.IsNearlyFresh f.initialSlot := by
  cases f with
  | primitive name type size kind => rfl
  | nested name repetition element =>
    cases repetition with
    | once => exact Layout.isBlank_initialSlots (component element rfl)
    | array | group => rfl

private theorem Field.IsNearlyFresh.struct_inv {f : Field} {slots : List Slot}
    (near : f.IsNearlyFresh (.struct slots)) :
    ∃ name element, f = .nested name .once element ∧ element.IsBlank slots := by
  cases f with
  | primitive name type size kind =>
    cases kind with
    | int | pad | bytes | varBytes => cases near
  | nested name repetition element =>
    cases repetition with
    | once => exact ⟨name, element, rfl, near⟩
    | array | group => cases near

private theorem Field.IsNearlyFresh.eq_initialSlot {f : Field} {s : Slot} (near : f.IsNearlyFresh s)
    (plain : ∀ slots, s ≠ .struct slots) : s = f.initialSlot := by
  cases s with
  | struct slots => exact absurd rfl (plain slots)
  | pad | int | bytes | elems =>
    cases f with
    | primitive => exact near
    | nested name repetition element =>
      cases repetition with
      | once | array | group => exact near

private theorem isNearlyFresh_setNestedRaw {fields : List Field} {slots : List Slot}
    (near : ∀ (i : Nat) (f : Field) (s : Slot), fields[i]? = some f → slots[i]? = some s → f.IsNearlyFresh s)
    (j k : Nat) (raw : UInt64) :
    ∀ (i : Nat) (f : Field) (s : Slot), fields[i]? = some f → (setNestedRaw slots j k raw)[i]? = some s →
      f.IsNearlyFresh s := by
  intro i f s here there
  rw [setNestedRaw, List.getElem?_modify] at there
  obtain ⟨old, before, rfl⟩ := Option.map_eq_some_iff.mp there
  have was := near i f old here before
  split
  · cases old with
    | struct inner =>
      obtain ⟨_, element, rfl, blank⟩ := was.struct_inv
      exact blank.setRawAt k raw
    | pad | int | bytes | elems => exact was
  · exact was

private theorem Layout.isNearlyFresh_initialSlots {l : Layout}
    (component : ∀ f ∈ l.fields, ∀ element, f.element? = some element → element.isMessage = false) :
    ∀ (i : Nat) (f : Field) (s : Slot), l.fields[i]? = some f → l.initialSlots[i]? = some s →
      f.IsNearlyFresh s := by
  have fresh : ∀ (i : Nat) (f : Field) (s : Slot), l.fields[i]? = some f →
      (initialFieldSlots l.fields)[i]? = some s → f.IsNearlyFresh s := by
    intro i f s here there
    rw [getElem?_initialFieldSlots here there]
    exact Field.isNearlyFresh_initialSlot (component f (List.mem_of_getElem? here))
  obtain ⟨name, message, size, fields⟩ := l
  cases message with
  | none => exact fresh
  | some info => exact isNearlyFresh_setNestedRaw (isNearlyFresh_setNestedRaw fresh _ _ _) _ _ _

private theorem IsCounterAt.rawAt_initialFieldSlots {fields : List Field} {i : Nat} (counter : IsCounterAt fields i) :
    rawAt (initialFieldSlots fields) i = 0 := by
  obtain ⟨name, type, size, form, here, _, zero⟩ := counter
  simp [rawAt, initialFieldSlots_eq_map, here, Field.initialSlot, Slot.raw, zero]

private theorem Layout.rawAt_initialSlots (l : Layout) (i : Nat) :
    rawAt l.initialSlots i = rawAt (initialFieldSlots l.fields) i := by
  obtain ⟨name, message, size, fields⟩ := l
  cases message with
  | none => rfl
  | some info => simp only [initialSlots, rawAt_setNestedRaw, Layout.fields]

private theorem Layout.Sound.rawAt_counter {l : Layout} (sound : l.Sound) {f : Field} (member : f ∈ l.fields)
    {counter : Nat} (governed : f.counter? = some counter) : rawAt l.initialSlots counter = 0 := by
  obtain ⟨i, here⟩ := List.mem_iff_getElem?.mp member
  obtain ⟨_, marked⟩ := sound.countersPrecede i f counter here governed
  rw [l.rawAt_initialSlots, marked.rawAt_initialFieldSlots]

private theorem Field.reserve_of_unset {f : Field} {all : List Slot}
    (unset : ∀ counter, f.counter? = some counter → rawAt all counter = 0) : f.reserve all = f.extent := by
  cases f with
  | primitive name type size kind =>
    cases kind with
    | int | pad | bytes => rfl
    | varBytes counter => simp [Field.reserve, Field.extent, unset counter rfl]
  | nested name repetition element =>
    cases repetition with
    | once | array => rfl
    | group counter least most => simp [Field.reserve, Field.extent, unset counter rfl]

theorem Layout.Sound.reserve_initialSlots {l : Layout} (sound : l.Sound) :
    l.reserve l.initialSlots = l.extent := by
  rw [Layout.reserve, Layout.extent_eq_sum]
  congr 1
  exact List.map_congr_left fun f member => Field.reserve_of_unset fun _ governed =>
    sound.rawAt_counter member governed

/-- No group of the layout needs an element. -/
def Layout.MayBeEmpty (l : Layout) : Prop := ∀ f ∈ l.fields, f.isDynamic = true → f.countBounds.1 = 0

instance (l : Layout) : Decidable l.MayBeEmpty :=
  inferInstanceAs (Decidable (∀ f ∈ l.fields, f.isDynamic = true → f.countBounds.1 = 0))

section Compiled

variable {m : Model} {t : Table} {l : Layout}

private theorem Table.length_initial_le (compiled : Table.compile m = .ok t) (listed : l ∈ t.layouts)
    {name type : String} {size : Nat} {data : Bytes}
    (member : Field.primitive name type size (.bytes (some data)) ∈ l.fields) : data.length ≤ size := by
  obtain ⟨_, _, sound⟩ := Table.isSound_of_compile compiled
  obtain ⟨_, stems⟩ := sound.stems l listed
  obtain ⟨_, _, field⟩ := stems.fields.of_mem member
  cases field with
  | primitive known once suits => exact suits.2 data rfl

private theorem Table.isValid_of_isBlank (accepted : m.IsAccepted) (compiled : Table.compile m = .ok t) :
    ∀ l ∈ t.layouts, l.size.isStatic = true → ∀ slots, l.IsBlank slots → l.IntegersFit slots →
      l.IsValid slots := by
  intro l
  induction l using Layout.nesting with
  | step name message size fields ih =>
    intro listed static slots blank fit
    have sound := Table.sound_of_compile accepted compiled _ listed
    have elements := (Table.isWellFormed_of_compile accepted compiled listed).elements
    refine Layout.isValid_iff.mpr ?_
    intro i f s here there
    have member := List.mem_of_getElem? here
    have constant := sound.not_dynamic static member
    refine Field.isValid_of_fresh ?_ ?_ ?_ ?_ (blank i f s here there) (fit i f s here there)
    · rintro _ _ _ _ rfl
      exact Table.length_initial_le compiled listed member
    · intro counter governed
      rw [f.isDynamic_of_counter? governed] at constant
      cases constant
    · intro dynamic
      rw [dynamic] at constant
      cases constant
    · intro element nested
      obtain ⟨present, _, component, fixed, _⟩ := elements f member element nested
      exact ih f member element nested present fixed _ (Layout.isBlank_initialSlots component)

/-- A fresh instance of a layout whose groups may be empty is valid exactly when its integers fit. -/
theorem Table.isValid_initialSlots_iff (accepted : m.IsAccepted) (compiled : Table.compile m = .ok t)
    (listed : l ∈ t.layouts) (empty : l.MayBeEmpty) :
    l.IsValid l.initialSlots ↔ l.IntegersFit l.initialSlots := by
  refine ⟨l.integersFit_of_isValid _ l.admits_initialSlots, ?_⟩
  intro fit
  have sound := Table.sound_of_compile accepted compiled l listed
  have elements := (Table.isWellFormed_of_compile accepted compiled listed).elements
  have component : ∀ f ∈ l.fields, ∀ element, f.element? = some element → element.isMessage = false :=
    fun f member element nested => (elements f member element nested).2.2.1
  have below : ∀ f ∈ l.fields, ∀ element, f.element? = some element → ∀ slots, element.IsBlank slots →
      element.IntegersFit slots → element.IsValid slots := by
    intro f member element nested
    obtain ⟨present, _, _, static, _⟩ := elements f member element nested
    exact Table.isValid_of_isBlank accepted compiled element present static
  refine Layout.isValid_iff.mpr ?_
  intro i f s here there
  have member := List.mem_of_getElem? here
  have near := Layout.isNearlyFresh_initialSlots component i f s here there
  have fits := fit i f s here there
  have whole : (f.intForm? = none → s = f.initialSlot) → f.IsValid l.initialSlots s := by
    intro fresh
    refine Field.isValid_of_fresh ?_ ?_ ?_ ?_ fresh fits
    · rintro _ _ _ _ rfl
      exact Table.length_initial_le compiled listed member
    · intro counter governed
      exact sound.rawAt_counter member governed
    · exact empty f member
    · intro element nested
      exact below f member element nested _ (Layout.isBlank_initialSlots (component f member element nested))
  cases s with
  | struct slots =>
    obtain ⟨_, element, rfl, blank⟩ := near.struct_inv
    exact below _ member element rfl slots blank (Field.integersFit_struct.mp fits)
  | pad | int | bytes | elems => exact whole fun _ => near.eq_initialSlot (by simp)

end Compiled

end TradeWire

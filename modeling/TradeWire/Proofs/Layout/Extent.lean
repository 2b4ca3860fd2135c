import Mathlib.Algebra.Order.BigOperators.Group.List
import Mathlib.Algebra.Order.Group.Nat
import TradeWire.Layout.Basic
import TradeWire.Proofs.Number.Words

/-! Exact sizes of layouts, and what the codec relies on in a layout. -/

set_option autoImplicit false
set_option relaxedAutoImplicit false

namespace TradeWire

theorem Layout.nesting {motive : Layout → Prop}
    (step : ∀ name message size fields,
      (∀ f ∈ fields, ∀ element, f.element? = some element → motive element) →
        motive (.mk name message size fields)) (l : Layout) : motive l := by
  refine Layout.rec (motive_1 := fun f => ∀ element, f.element? = some element → motive element)
    (motive_2 := motive)
    (motive_3 := fun fields => ∀ f ∈ fields, ∀ element, f.element? = some element → motive element)
    ?_ ?_ step ?_ ?_ l
  · intro name type size kind element absent
    simp [Field.element?] at absent
  · intro name repetition inner holds element same
    simp only [Field.element?, Option.some.injEq] at same
    exact same ▸ holds
  · intro f member
    simp at member
  · intro head tail first others f member
    rcases List.mem_cons.mp member with rfl | later
    · exact first
    · exact others f later

mutual

/-- The number of bytes that an instance of a layout takes apart from its dynamic fields. -/
def Layout.extent : Layout → Nat
  | .mk _ _ _ fields => extentOf fields

def extentOf : List Field → Nat
  | [] => 0
  | f :: rest => f.extent + extentOf rest

/-- The number of bytes a field takes whatever its value; none for a dynamic field. -/
def Field.extent : Field → Nat
  | .primitive _ _ _ (.varBytes _) => 0
  | .primitive _ _ size _ => size
  | .nested _ .once element => element.extent
  | .nested _ (.array count) element => count * element.extent
  | .nested _ (.group ..) _ => 0

end

private theorem extentOf_eq_sum (fields : List Field) : extentOf fields = (fields.map Field.extent).sum := by
  induction fields with
  | nil => rfl
  | cons f rest ih => simp [extentOf, ih]

theorem Layout.extent_eq_sum (l : Layout) : l.extent = (l.fields.map Field.extent).sum := by
  obtain ⟨name, message, size, fields⟩ := l
  exact extentOf_eq_sum fields

theorem Field.exists_of_intForm? {f : Field} {form : IntForm} (integer : f.intForm? = some form) :
    ∃ name type size, f = .primitive name type size (.int form) := by
  match f, integer with
  | .primitive name type size (.int _), rfl => exact ⟨name, type, size, rfl⟩

/-- The largest number of bytes a field takes, its counter being at its bound. -/
def Field.capacity : Field → Nat
  | .primitive _ _ size (.varBytes _) => size
  | .nested _ (.group _ _ most) element => most * element.extent
  | f => f.extent

/-- The largest number of bytes an instance takes, computed exactly. -/
def Layout.capacity (l : Layout) : Nat := (l.fields.map Field.capacity).sum

/-- The size of no instance of the layout is beyond the signed machine numbers. -/
def Layout.IsAddressable (l : Layout) : Prop := (l.capacity : Int) ≤ Word.maxSigned

theorem Field.capacity_of_not_dynamic {f : Field} (constant : f.isDynamic = false) :
    f.capacity = f.extent := by
  match f with
  | .primitive _ _ _ (.int _) | .primitive _ _ _ .pad | .primitive _ _ _ (.bytes _) => rfl
  | .nested _ .once _ | .nested _ (.array _) _ => rfl
  | .primitive _ _ _ (.varBytes _) | .nested _ (.group ..) _ => simp [isDynamic] at constant

private theorem Field.extent_le_capacity (f : Field) : f.extent ≤ f.capacity := by
  cases dynamic : f.isDynamic with
  | false => exact Nat.le_of_eq (f.capacity_of_not_dynamic dynamic).symm
  | true =>
    have none : f.extent = 0 := by
      match f with
      | .primitive _ _ _ (.varBytes _) | .nested _ (.group ..) _ => rfl
      | .primitive _ _ _ (.int _) | .primitive _ _ _ .pad | .primitive _ _ _ (.bytes _)
      | .nested _ .once _ | .nested _ (.array _) _ => cases dynamic
    omega

theorem Layout.fields_ne_nil_of_capacity (l : Layout) (some_room : l.capacity ≠ 0) : l.fields ≠ [] := by
  intro none
  simp [Layout.capacity, none] at some_room

theorem Layout.extent_le_capacity (l : Layout) : l.extent ≤ l.capacity := by
  rw [Layout.extent_eq_sum, Layout.capacity]
  exact List.sum_le_sum fun f _ => f.extent_le_capacity

/-- The field at a position is an integer that is marked as a counter and starts at zero. -/
def IsCounterAt (fields : List Field) (i : Nat) : Prop :=
  ∃ name type size form, fields[i]? = some (Field.primitive name type size (.int form)) ∧
    form.governs = true ∧ form.initial = 0

/-- Each dynamic field is governed by a counter before it. -/
def CountersPrecede (fields : List Field) : Prop :=
  ∀ (i : Nat) (f : Field) (counter : Nat), fields[i]? = some f → f.counter? = some counter →
    counter < i ∧ IsCounterAt fields counter

/-- Nothing in an instance depends on a counter, at any depth. -/
inductive Layout.IsConstant : Layout → Prop
  | mk {name : String} {message : Option MessageInfo} {size : Size} {fields : List Field}
      (fixed : ∀ f ∈ fields, f.isDynamic = false)
      (below : ∀ f ∈ fields, ∀ element, f.element? = some element → element.IsConstant) :
      IsConstant (.mk name message size fields)

/-- What reading and writing rely on in a layout and in every element below it. -/
inductive Layout.Sound : Layout → Prop
  | mk {name : String} {message : Option MessageInfo} {size : Size} {fields : List Field}
      (widths : ∀ name type width form,
        Field.primitive name type width (.int form) ∈ fields → 0 < width ∧ width ≤ 8)
      (counters : CountersPrecede fields)
      (sized : size.isStatic = true →
        size.fixed = Word.wrap (extentOf fields) ∧ ∀ f ∈ fields, f.isDynamic = false)
      (static : ∀ f ∈ fields, ∀ element, f.element? = some element → element.size.isStatic = true)
      (elements : ∀ f ∈ fields, ∀ element, f.element? = some element → element.Sound) :
      Sound (.mk name message size fields)

/-- What reading and writing rely on in a single field. -/
structure Field.Sound (f : Field) : Prop where
  width : ∀ name type size form, f = .primitive name type size (.int form) → 0 < size ∧ size ≤ 8
  static : ∀ element, f.element? = some element → element.size.isStatic = true
  element : ∀ element, f.element? = some element → element.Sound

namespace Layout.Sound

variable {l : Layout}

theorem field (sound : l.Sound) {f : Field} (member : f ∈ l.fields) : f.Sound := by
  cases sound with
  | mk widths counters sized static elements =>
    refine ⟨?_, static f member, elements f member⟩
    rintro name type size form rfl
    exact widths name type size form member

theorem countersPrecede (sound : l.Sound) : CountersPrecede l.fields := by
  cases sound with
  | mk widths counters sized static elements => exact counters

theorem fixed_eq (sound : l.Sound) (static : l.size.isStatic = true) :
    l.size.fixed = Word.wrap l.extent := by
  cases sound with
  | mk widths counters sized _ elements =>
    simp only [Layout.extent]
    exact (sized static).1

theorem not_dynamic (sound : l.Sound) (static : l.size.isStatic = true) {f : Field}
    (member : f ∈ l.fields) : f.isDynamic = false := by
  cases sound with
  | mk widths counters sized _ elements => exact (sized static).2 f member

theorem isConstant (sound : l.Sound) (static : l.size.isStatic = true) : l.IsConstant := by
  induction sound with
  | mk widths counters sized below elements ih =>
    refine .mk (sized static).2 ?_
    intro f member element nested
    exact ih f member element nested (below f member element nested)

theorem capacity_eq (sound : l.Sound) (static : l.size.isStatic = true) : l.capacity = l.extent := by
  rw [Layout.capacity, Layout.extent_eq_sum]
  congr 1
  refine List.map_congr_left ?_
  intro f member
  exact f.capacity_of_not_dynamic (sound.not_dynamic static member)

end Layout.Sound

def Repetition.most : Repetition → Nat
  | once => 1
  | array count => count
  | group _ _ most => most

theorem Field.capacity_nested (name : String) (repetition : Repetition) (element : Layout) :
    (Field.nested name repetition element).capacity = repetition.most * element.extent := by
  cases repetition with
  | once => simp [Field.capacity, Field.extent, Repetition.most]
  | array | group => rfl

/-- An instance looks at the buffer before anything else: the first member is there whatever the
counters say, and so are the elements below it. -/
inductive Layout.Anchored : Layout → Prop
  | mk {name : String} {message : Option MessageInfo} {size : Size} {first : Field} {rest : List Field}
      (leads : first.isDynamic = false)
      (holds : ∀ name repetition element,
        Field.nested name repetition element ∈ first :: rest → 0 < repetition.most)
      (below : ∀ f ∈ first :: rest, ∀ element, f.element? = some element → element.Anchored) :
      Anchored (.mk name message size (first :: rest))

theorem Layout.Sound.isAddressable_element {l : Layout} (sound : l.Sound) (addressable : l.IsAddressable)
    (holds : ∀ name repetition element,
      Field.nested name repetition element ∈ l.fields → 0 < repetition.most)
    {f : Field} (member : f ∈ l.fields) {element : Layout} (nested : f.element? = some element) :
    element.IsAddressable := by
  cases f with
  | primitive => cases nested
  | nested name repetition other =>
    cases nested
    have field := sound.field member
    have whole : element.capacity = element.extent :=
      (field.element element rfl).capacity_eq (field.static element rfl)
    have part : (Field.nested name repetition element).capacity ≤ l.capacity :=
      List.le_sum_of_mem (List.mem_map_of_mem member)
    have one : element.extent ≤ repetition.most * element.extent :=
      Nat.le_mul_of_pos_left _ (holds name repetition element member)
    rw [Field.capacity_nested] at part
    unfold Layout.IsAddressable at addressable ⊢
    omega

theorem Field.Sound.wrap_width {f : Field} (sound : f.Sound) :
    Word.wrap f.width = Word.wrap f.extent := by
  match f with
  | .primitive _ _ _ (.int _) | .primitive _ _ _ .pad | .primitive _ _ _ (.bytes _) => rfl
  | .primitive _ _ _ (.varBytes _) | .nested _ (.group ..) _ => rfl
  | .nested _ .once element =>
    have fixed := (sound.element element rfl).fixed_eq (sound.static element rfl)
    simp only [Field.width, Field.extent, fixed, Word.wrap_wrap]
  | .nested _ (.array count) element =>
    have fixed := (sound.element element rfl).fixed_eq (sound.static element rfl)
    simp only [Field.width, Field.extent, fixed, Word.mul_wrap_left, Word.wrap_wrap, Int.natCast_mul]
    rw [Int.mul_comm]

end TradeWire

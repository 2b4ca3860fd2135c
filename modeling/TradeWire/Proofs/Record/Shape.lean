import TradeWire.Proofs.Data.Related
import TradeWire.Proofs.Layout.Extent
import TradeWire.Record.Access

/-! A layout admits the slots that have the kinds of its fields, and every change keeps them so. -/

set_option autoImplicit false
set_option relaxedAutoImplicit false

namespace TradeWire

mutual

/-- The slots have the shape of the layout. -/
def Layout.Admits : Layout → List Slot → Prop
  | .mk _ _ _ fields, slots => FieldsAdmit fields slots

/-- Each slot has the shape of its field, and there is one for each. -/
def FieldsAdmit : List Field → List Slot → Prop
  | [], [] => True
  | f :: fs, s :: ss => f.Admits s ∧ FieldsAdmit fs ss
  | _, _ => False

/-- The slot has the kind of the field. How many elements it holds is left open. -/
def Field.Admits : Field → Slot → Prop
  | .primitive _ _ _ (.int _), .int _ _ => True
  | .primitive _ _ _ .pad, .pad => True
  | .primitive _ _ _ (.bytes _), .bytes _ => True
  | .primitive _ _ _ (.varBytes _), .bytes _ => True
  | .nested _ .once element, .struct slots => element.Admits slots
  | .nested _ (.array _) element, .elems items => ∀ item ∈ items, element.Admits item
  | .nested _ (.group ..) element, .elems items => ∀ item ∈ items, element.Admits item
  | _, _ => False

end

private theorem fieldsAdmit_iff {fields : List Field} {slots : List Slot} :
    FieldsAdmit fields slots ↔ List.Forall₂ Field.Admits fields slots := by
  induction fields generalizing slots with
  | nil =>
    cases slots with
    | nil => simp [FieldsAdmit]
    | cons s ss => simp [FieldsAdmit]
  | cons f fs ih =>
    cases slots with
    | nil => simp [FieldsAdmit]
    | cons s ss => simp [FieldsAdmit, ih]

theorem Layout.admits_iff {l : Layout} {slots : List Slot} :
    l.Admits slots ↔ List.Forall₂ Field.Admits l.fields slots := by
  obtain ⟨name, message, size, fields⟩ := l
  exact fieldsAdmit_iff

theorem Layout.Admits.length_eq {l : Layout} {slots : List Slot} (shape : l.Admits slots) :
    l.fields.length = slots.length :=
  (Layout.admits_iff.mp shape).length_eq

namespace Field

theorem Admits.struct_inv {f : Field} {slots : List Slot} (shape : f.Admits (.struct slots)) :
    ∃ name element, f = .nested name .once element ∧ element.Admits slots := by
  match f with
  | .nested name .once element => exact ⟨name, element, rfl, shape⟩
  | .primitive _ _ _ (.int _) | .primitive _ _ _ .pad | .primitive _ _ _ (.bytes _)
  | .primitive _ _ _ (.varBytes _) | .nested _ (.array _) _ | .nested _ (.group ..) _ => cases shape

theorem Admits.elems_inv {f : Field} {items : List (List Slot)} (shape : f.Admits (.elems items)) :
    ∃ name repetition element, f = .nested name repetition element ∧ repetition ≠ .once ∧
      ∀ item ∈ items, element.Admits item := by
  match f with
  | .nested name (.array count) element => exact ⟨name, .array count, element, rfl, nofun, shape⟩
  | .nested name (.group counter least most) element =>
    exact ⟨name, .group counter least most, element, rfl, nofun, shape⟩
  | .primitive _ _ _ (.int _) | .primitive _ _ _ .pad | .primitive _ _ _ (.bytes _)
  | .primitive _ _ _ (.varBytes _) | .nested _ .once _ => cases shape

theorem admits_elems {name : String} {repetition : Repetition} {element : Layout}
    {items : List (List Slot)} (many : repetition ≠ .once) :
    (nested name repetition element).Admits (.elems items) ↔ ∀ item ∈ items, element.Admits item := by
  cases repetition with
  | once => exact absurd rfl many
  | array count => exact Iff.rfl
  | group counter least most => exact Iff.rfl

private theorem admits_withRaw {f : Field} {s : Slot} (shape : f.Admits s) (raw : UInt64) :
    f.Admits (s.withRaw raw) := by
  cases s with
  | int old symbol =>
    match f with
    | .primitive _ _ _ (.int _) => trivial
    | .primitive _ _ _ .pad | .primitive _ _ _ (.bytes _) | .primitive _ _ _ (.varBytes _)
    | .nested _ .once _ | .nested _ (.array _) _ | .nested _ (.group ..) _ => cases shape
  | pad | bytes | struct | elems => exact shape

end Field

namespace Layout

private theorem admits_setRawAt {l : Layout} {slots : List Slot} (shape : l.Admits slots) (i : Nat)
    (raw : UInt64) : l.Admits (setRawAt slots i raw) := by
  refine admits_iff.mpr (forall₂_modify (admits_iff.mp shape) ?_)
  intro f s _ _ here
  exact Field.admits_withRaw here raw

theorem admits_setNestedRaw {l : Layout} {slots : List Slot} (shape : l.Admits slots) (i j : Nat)
    (raw : UInt64) : l.Admits (setNestedRaw slots i j raw) := by
  refine admits_iff.mpr (forall₂_modify (admits_iff.mp shape) ?_)
  intro f s _ _ here
  cases s with
  | struct inner =>
    obtain ⟨name, element, rfl, below⟩ := here.struct_inv
    exact admits_setRawAt below j raw
  | pad | int | bytes | elems => exact here

end Layout

theorem initialFieldSlots_eq_map (fields : List Field) :
    initialFieldSlots fields = fields.map Field.initialSlot := by
  induction fields with
  | nil => rfl
  | cons f rest ih => simp [initialFieldSlots, ih]

private theorem Field.admits_initialSlot (f : Field)
    (below : ∀ element, f.element? = some element → element.Admits element.initialSlots) :
    f.Admits f.initialSlot := by
  match f with
  | .primitive _ _ _ (.int _) | .primitive _ _ _ .pad | .primitive _ _ _ (.bytes _)
  | .primitive _ _ _ (.varBytes _) => trivial
  | .nested _ .once element => exact below element rfl
  | .nested _ (.array count) element =>
    intro item member
    exact (List.eq_of_mem_replicate member) ▸ below element rfl
  | .nested _ (.group ..) element =>
    intro item member
    cases member

private theorem Layout.admits_initialFieldSlots_of_below {l : Layout}
    (below : ∀ f ∈ l.fields, ∀ element, f.element? = some element → element.Admits element.initialSlots) :
    l.Admits (initialFieldSlots l.fields) := by
  rw [Layout.admits_iff, initialFieldSlots_eq_map]
  refine forall₂_map_of_mem ?_
  intro f member
  exact f.admits_initialSlot (below f member)

theorem Layout.admits_initialSlots (l : Layout) : l.Admits l.initialSlots := by
  induction l using Layout.nesting with
  | step name message size fields ih =>
    have fresh : (Layout.mk name message size fields).Admits (initialFieldSlots fields) :=
      Layout.admits_initialFieldSlots_of_below ih
    cases message with
    | none => simpa [Layout.initialSlots] using fresh
    | some info =>
      simp only [Layout.initialSlots]
      exact admits_setNestedRaw (admits_setNestedRaw fresh _ _ _) _ _ _

theorem Layout.admits_initialFieldSlots (l : Layout) : l.Admits (initialFieldSlots l.fields) :=
  Layout.admits_initialFieldSlots_of_below fun _ _ element _ => element.admits_initialSlots

private theorem admits_items {element : Layout} {g : List Slot → List Slot} {items : List (List Slot)}
    (shape : ∀ item ∈ items, element.Admits item)
    (keeps : ∀ slots, element.Admits slots → element.Admits (g slots)) :
    ∀ item ∈ items.map g, element.Admits item := by
  intro item member
  obtain ⟨old, inside, rfl⟩ := List.mem_map.mp member
  exact keeps old (shape old inside)

private theorem Field.admits_trimSlot {f : Field} {s : Slot} (shape : f.Admits s)
    (below : ∀ element, f.element? = some element →
      ∀ slots, element.Admits slots → element.Admits (element.trimSlots slots)) :
    f.Admits (f.trimSlot s) := by
  cases s with
  | struct inner =>
    obtain ⟨name, element, rfl, holds⟩ := shape.struct_inv
    exact below element rfl inner holds
  | elems items =>
    obtain ⟨name, repetition, element, rfl, many, holds⟩ := shape.elems_inv
    exact (admits_elems many).mpr (admits_items holds (below element rfl))
  | bytes data =>
    match f with
    | .primitive _ _ _ (.bytes _) => trivial
    | .primitive _ _ _ (.varBytes _) => trivial
    | .primitive _ _ _ (.int _) | .primitive _ _ _ .pad | .nested _ .once _
    | .nested _ (.array _) _ | .nested _ (.group ..) _ => cases shape
  | pad | int =>
    match f with
    | .primitive _ _ _ (.int _) | .primitive _ _ _ .pad | .primitive _ _ _ (.bytes _)
    | .primitive _ _ _ (.varBytes _) | .nested .. => exact shape

private theorem Field.admits_syncSlot {f : Field} {s : Slot} (shape : f.Admits s)
    (below : ∀ element, f.element? = some element →
      ∀ slots, element.Admits slots → element.Admits (element.syncSlots slots)) :
    f.Admits (f.syncSlot s) := by
  cases s with
  | struct inner =>
    obtain ⟨name, element, rfl, holds⟩ := shape.struct_inv
    exact below element rfl inner holds
  | elems items =>
    obtain ⟨name, repetition, element, rfl, many, holds⟩ := shape.elems_inv
    exact (admits_elems many).mpr (admits_items holds (below element rfl))
  | pad | int | bytes =>
    match f with
    | .primitive .. | .nested .. => exact shape

theorem Layout.admits_trimSlots (l : Layout) :
    ∀ slots, l.Admits slots → l.Admits (l.trimSlots slots) := by
  induction l using Layout.nesting with
  | step name message size fields ih =>
    intro slots shape
    rw [Layout.admits_iff] at shape ⊢
    simp only [Layout.fields, Layout.trimSlots] at shape ⊢
    induction shape with
    | nil => simp [trimFieldSlots]
    | @cons f s fs ss first rest tail =>
      simp only [trimFieldSlots, List.forall₂_cons]
      exact ⟨Field.admits_trimSlot first (ih f (by simp)),
        tail fun g later => ih g (by simp [later])⟩

private theorem Layout.admits_setCounters {l : Layout} {slots : List Slot} (shape : l.Admits slots) :
    l.Admits (setCounters l.fields slots) := by
  unfold setCounters
  refine List.foldlRecOn (motive := fun acc => l.Admits acc) _ _ shape ?_
  rintro acc holds ⟨f, s⟩ _
  simp only
  split
  · exact admits_setRawAt holds _ _
  · exact holds

theorem Layout.admits_syncSlots (l : Layout) :
    ∀ slots, l.Admits slots → l.Admits (l.syncSlots slots) := by
  induction l using Layout.nesting with
  | step name message size fields ih =>
    intro slots shape
    have inner : (Layout.mk name message size fields).Admits (syncFieldSlots fields slots) := by
      rw [Layout.admits_iff] at shape ⊢
      simp only [Layout.fields] at shape ⊢
      induction shape with
      | nil => simp [syncFieldSlots]
      | @cons f s fs ss first rest tail =>
        simp only [syncFieldSlots, List.forall₂_cons]
        exact ⟨Field.admits_syncSlot first (ih f (by simp)),
          tail fun g later => ih g (by simp [later])⟩
    simp only [Layout.syncSlots]
    exact admits_setCounters inner

namespace Record

private theorem admits_modifySlots {change : Slot → Slot} {i : Nat} (hops : List Hop) :
    ∀ (l : Layout) (slots : List Slot), l.Admits slots →
      (∀ owner inner f s, follow hops l slots = some (owner, inner) → owner.fields[i]? = some f →
        inner[i]? = some s → f.Admits s → f.Admits (change s)) →
      l.Admits (modifySlots change hops i slots) := by
  induction hops with
  | nil =>
    intro l slots shape good
    refine Layout.admits_iff.mpr (forall₂_modify (Layout.admits_iff.mp shape) ?_)
    intro f s here there
    exact good l slots f s rfl here there
  | cons hop hops ih =>
    intro l slots shape good
    refine Layout.admits_iff.mpr (forall₂_modify (Layout.admits_iff.mp shape) ?_)
    intro f s here there kind
    split
    · rename_i inner item
      obtain ⟨name, element, rfl, below⟩ := kind.struct_inv
      refine ih element inner below ?_
      intro owner slots' g t reached
      exact good owner slots' g t (by simpa [follow, here, there, item] using reached)
    · rename_i items n item
      obtain ⟨name, repetition, element, rfl, many, below⟩ := kind.elems_inv
      refine (Field.admits_elems many).mpr (forall_mem_modify below ?_)
      intro b at_n
      refine ih element b (below b (List.mem_of_getElem? at_n)) ?_
      intro owner slots' g t reached
      exact good owner slots' g t (by simpa [follow, here, there, item, at_n] using reached)
    · exact kind

theorem at?_of_locate {r : Record} {path : String} {place : Location} {f : Field} {s : Slot}
    (located : r.locate path = .ok (place, f, s)) : r.at? place = some (f, s) := by
  unfold locate at located
  split at located
  · cases located
  · split at located
    · rename_i g t there
      cases located
      exact there
    · cases located

theorem admits_of_follow {hops : List Hop} {l owner : Layout} {slots inner : List Slot}
    (shape : l.Admits slots) (reached : follow hops l slots = some (owner, inner)) :
    owner.Admits inner := by
  induction hops generalizing l slots with
  | nil =>
    simp only [follow, Option.some.injEq, Prod.mk.injEq] at reached
    exact reached.1 ▸ reached.2 ▸ shape
  | cons hop hops ih =>
    simp only [follow] at reached
    split at reached
    · rename_i name repetition element deeper here there item
      obtain ⟨s, same, kind⟩ := forall₂_getElem? (Layout.admits_iff.mp shape) here
      obtain rfl := Option.some.inj (there.symm.trans same)
      obtain ⟨_, _, form, below⟩ := kind.struct_inv
      cases form
      exact ih below reached
    · rename_i name repetition element items n here there item
      obtain ⟨s, same, kind⟩ := forall₂_getElem? (Layout.admits_iff.mp shape) here
      obtain rfl := Option.some.inj (there.symm.trans same)
      obtain ⟨_, _, _, form, _, below⟩ := kind.elems_inv
      cases form
      obtain ⟨one, inside, onward⟩ := Option.bind_eq_some_iff.mp reached
      exact ih (below one (List.mem_of_getElem? inside)) onward
    · cases reached

theorem admits_of_locate {r : Record} {path : String} {place : Location} {f : Field} {s : Slot}
    (shape : r.layout.Admits r.slots) (located : r.locate path = .ok (place, f, s)) : f.Admits s := by
  have found := at?_of_locate located
  simp only [at?] at found
  obtain ⟨⟨owner, inner⟩, reached, there⟩ := Option.bind_eq_some_iff.mp found
  simp only at there
  split at there
  · rename_i g t here held
    cases there
    obtain ⟨u, same, kind⟩ := forall₂_getElem?
      (Layout.admits_iff.mp (admits_of_follow shape reached)) here
    obtain rfl := Option.some.inj (held.symm.trans same)
    exact kind
  · cases there

/-- Setting a located slot keeps the shape when the new slot has the kind of the field. -/
theorem admits_modify {r : Record} {path : String} {place : Location} {f : Field} {s : Slot}
    {change : Slot → Slot} (shape : r.layout.Admits r.slots)
    (located : r.locate path = .ok (place, f, s)) (good : ∀ t, f.Admits t → f.Admits (change t)) :
    (r.modify place change).layout.Admits (r.modify place change).slots := by
  have found := at?_of_locate located
  refine admits_modifySlots place.hops r.layout r.slots shape ?_
  intro owner inner g t reached here there
  have same : g = f := by
    simp only [at?, reached, Option.bind_some, here, there, Option.some.injEq, Prod.mk.injEq] at found
    exact found.1
  exact same ▸ good t

end Record

end TradeWire

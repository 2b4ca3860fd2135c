import TradeWire.Proofs.Record.Reachable

/-! A slot that is changed shows the change at its location and nowhere else. -/

set_option autoImplicit false
set_option relaxedAutoImplicit false

namespace TradeWire

/-- What a slot holds by itself. Of structures and elements in it only the number counts. -/
def Slot.own : Slot → Slot
  | .struct _ => .struct []
  | .elems items => .elems (List.replicate items.length [])
  | s => s

/-- The instance that a slot holds, or the one of its elements that is asked for. -/
def Field.enter : Field → Slot → Option Nat → Option Record
  | .nested _ _ element, .struct inner, none => some ⟨element, inner⟩
  | .nested _ _ element, .elems items, some n => (items[n]?).map fun item => ⟨element, item⟩
  | _, _, _ => none

private theorem Field.enter_of_flat {f : Field} (flat : f.element? = none) (s : Slot) (item : Option Nat) :
    f.enter s item = none := by
  cases f with
  | primitive => rfl
  | nested => cases flat

namespace Record

/-- The field and the slot at a position of the record itself. -/
def member? (r : Record) (i : Nat) : Option (Field × Slot) :=
  match r.layout.fields[i]?, r.slots[i]? with
  | some f, some s => some (f, s)
  | _, _ => none

/-- The instance that one hop leads to. -/
def enter (r : Record) (hop : Hop) : Option Record :=
  (r.member? hop.field).bind fun (f, s) => f.enter s hop.item

/-- What one hop does: it leads into a structure, or into one of several elements. -/
inductive Enters (r : Record) : Hop → Record → Prop
  | whole {i : Nat} {name : String} {repetition : Repetition} {element : Layout} {inner : List Slot}
      (nested : r.layout.fields[i]? = some (.nested name repetition element))
      (held : r.slots[i]? = some (.struct inner)) : Enters r ⟨i, none⟩ ⟨element, inner⟩
  | item {i n : Nat} {name : String} {repetition : Repetition} {element : Layout}
      {items : List (List Slot)} {item : List Slot}
      (nested : r.layout.fields[i]? = some (.nested name repetition element))
      (held : r.slots[i]? = some (.elems items)) (inside : items[n]? = some item) :
      Enters r ⟨i, some n⟩ ⟨element, item⟩

def holds (r : Record) (place : Location) : Option (Field × Slot) :=
  (r.at? place).map fun (f, s) => (f, s.own)

/-- The change of a slot that changes a place in its structure or in one of its elements. -/
def within (change : Slot → Slot) (item : Option Nat) (place : Location) : Slot → Slot := fun s =>
  match s, item with
  | .struct inner, none => .struct (modifySlots change place.hops place.field inner)
  | .elems items, some n => .elems (items.modify n (modifySlots change place.hops place.field))
  | s, _ => s

section Steps

variable (r : Record) (change : Slot → Slot)

theorem member?_eq_some {r : Record} {i : Nat} {f : Field} {s : Slot} :
    r.member? i = some (f, s) ↔ r.layout.fields[i]? = some f ∧ r.slots[i]? = some s := by
  unfold member?
  cases r.layout.fields[i]? with
  | none => simp
  | some g =>
    cases r.slots[i]? with
    | none => simp
    | some t => simp

private theorem at?_here (i : Nat) : r.at? ⟨[], i⟩ = r.member? i := rfl

theorem enter_eq_some {r inner : Record} {hop : Hop} : r.enter hop = some inner ↔ Enters r hop inner := by
  constructor
  · intro entered
    obtain ⟨i, item⟩ := hop
    obtain ⟨⟨f, s⟩, entry, into⟩ := Option.bind_eq_some_iff.mp entered
    obtain ⟨here, held⟩ := member?_eq_some.mp entry
    simp only at into
    unfold Field.enter at into
    split at into
    · cases into
      exact .whole here held
    · obtain ⟨one, inside, rfl⟩ := Option.map_eq_some_iff.mp into
      exact .item here held inside
    · cases into
  · intro enters
    cases enters with
    | whole nested held => simp [enter, member?, nested, held, Field.enter]
    | item nested held inside => simp [enter, member?, nested, held, Field.enter, inside]

theorem follow_cons (hop : Hop) (hops : List Hop) :
    follow (hop :: hops) r.layout r.slots =
      (r.enter hop).bind fun inner => follow hops inner.layout inner.slots := by
  simp only [follow, enter, member?]
  cases r.layout.fields[hop.field]? with
  | none => rfl
  | some f =>
    cases r.slots[hop.field]? with
    | none => cases f <;> rfl
    | some s =>
      cases f with
      | primitive => rfl
      | nested name repetition element =>
        cases s with
        | pad | int | bytes => rfl
        | struct inner =>
          cases hop.item with
          | none | some => rfl
        | elems items =>
          cases hop.item with
          | none => rfl
          | some n =>
            simp only [Option.bind_some, Field.enter]
            cases items[n]? with
            | none | some => rfl

/-- What holds of a layout and goes on to the elements of its fields holds of the layout that hops lead to. -/
theorem owner_of_follow {P : Layout → Prop}
    (onward : ∀ l f element, P l → f ∈ l.fields → f.element? = some element → P element) {hops : List Hop}
    {r : Record} {owner : Layout} {inner : List Slot} (holds : P r.layout)
    (reached : follow hops r.layout r.slots = some (owner, inner)) : P owner := by
  induction hops generalizing r with
  | nil =>
    cases reached
    exact holds
  | cons hop hops ih =>
    rw [follow_cons] at reached
    obtain ⟨next, entered, further⟩ := Option.bind_eq_some_iff.mp reached
    refine ih ?_ further
    cases enter_eq_some.mp entered with
    | whole nested => exact onward _ _ _ holds (List.mem_of_getElem? nested) rfl
    | item nested => exact onward _ _ _ holds (List.mem_of_getElem? nested) rfl

theorem at?_eq_some {r : Record} {place : Location} {f : Field} {s : Slot} :
    r.at? place = some (f, s) ↔ ∃ owner inner, follow place.hops r.layout r.slots = some (owner, inner) ∧
      owner.fields[place.field]? = some f ∧ inner[place.field]? = some s := by
  constructor
  · intro there
    obtain ⟨⟨owner, inner⟩, reached, found⟩ := Option.bind_eq_some_iff.mp there
    exact ⟨owner, inner, reached, member?_eq_some (r := ⟨owner, inner⟩).mp found⟩
  · rintro ⟨owner, inner, reached, here, held⟩
    simp only [at?, reached, Option.bind_some, here, held]

theorem at?_cons (hop : Hop) (hops : List Hop) (i : Nat) :
    r.at? ⟨hop :: hops, i⟩ = (r.enter hop).bind (·.at? ⟨hops, i⟩) := by
  simp only [at?, follow_cons]
  cases r.enter hop <;> rfl

theorem at?_of_enters {r inner : Record} {hop : Hop} (enters : Enters r hop inner) (place : Location) :
    r.at? (place.below hop) = inner.at? place := by
  rw [Location.below, at?_cons, enter_eq_some.mpr enters, Option.bind_some]

private theorem holds_cons (hop : Hop) (hops : List Hop) (i : Nat) :
    r.holds ⟨hop :: hops, i⟩ = (r.enter hop).bind (·.holds ⟨hops, i⟩) := by
  simp only [holds, at?_cons]
  cases r.enter hop <;> rfl

private theorem modify_cons (hop : Hop) (hops : List Hop) (i : Nat) :
    r.modify ⟨hop :: hops, i⟩ change = r.modify ⟨[], hop.field⟩ (within change hop.item ⟨hops, i⟩) := rfl

private theorem member?_modify_here (i j : Nat) :
    (r.modify ⟨[], i⟩ change).member? j =
      (r.member? j).map fun (f, s) => (f, if i = j then change s else s) := by
  simp only [member?, modify, modifySlots, List.getElem?_modify]
  cases r.layout.fields[j]? with
  | none => rfl
  | some f =>
    cases r.slots[j]? with
    | none => rfl
    | some s => rfl

private theorem own_within (item : Option Nat) (place : Location) (s : Slot) :
    (within change item place s).own = s.own := by
  cases s with
  | pad | int | bytes => rfl
  | struct inner => cases item <;> rfl
  | elems items =>
    cases item with
    | none => rfl
    | some n => simp [within, Slot.own]

private theorem enter_within (f : Field) (s : Slot) (item other : Option Nat) (place : Location) :
    f.enter (within change item place s) other =
      (f.enter s other).map fun inner => if item = other then inner.modify place change else inner := by
  cases f with
  | primitive => rfl
  | nested name repetition element =>
    cases s with
    | pad | int | bytes => rfl
    | struct inner =>
      cases item with
      | none => cases other <;> rfl
      | some n => cases other <;> rfl
    | elems items =>
      cases other with
      | none => cases item <;> rfl
      | some m =>
        cases item with
        | none => cases at_m : items[m]? <;> simp [within, Field.enter, at_m]
        | some n =>
          simp only [within, Field.enter, List.getElem?_modify, Option.some.injEq]
          cases items[m]? with
          | none => rfl
          | some one =>
            by_cases same : n = m
            · simp only [same, if_true]
              rfl
            · simp only [same, if_false]
              rfl

private theorem enter_modify_cons (hop other : Hop) (hops : List Hop) (i : Nat) :
    (r.modify ⟨hop :: hops, i⟩ change).enter other =
      (r.enter other).map fun inner => if hop = other then inner.modify ⟨hops, i⟩ change else inner := by
  simp only [enter, modify_cons, member?_modify_here]
  cases r.member? other.field with
  | none => rfl
  | some entry =>
    obtain ⟨f, s⟩ := entry
    obtain ⟨k, item⟩ := hop
    obtain ⟨j, asked⟩ := other
    by_cases same : k = j
    · subst same
      simp [enter_within]
    · simp [same]

private theorem holds_modify_cons (hop : Hop) (hops : List Hop) (i j : Nat) :
    (r.modify ⟨hop :: hops, i⟩ change).holds ⟨[], j⟩ = r.holds ⟨[], j⟩ := by
  simp only [holds, modify_cons, at?_here, member?_modify_here, Option.map_map]
  congr 1
  funext ⟨f, s⟩
  simp only [Function.comp_apply, apply_ite Slot.own, own_within, ite_self]

end Steps

theorem at?_modify (r : Record) (place : Location) (change : Slot → Slot) :
    (r.modify place change).at? place = (r.at? place).map fun (f, s) => (f, change s) := by
  obtain ⟨hops, i⟩ := place
  induction hops generalizing r with
  | nil => simp [at?_here, member?_modify_here]
  | cons hop hops ih =>
    rw [at?_cons, at?_cons, enter_modify_cons]
    cases r.enter hop with
    | none => rfl
    | some inner => simpa using ih inner

private theorem holds_modify_rel {R : Option (Field × Slot) → Option (Field × Slot) → Prop}
    (refl : ∀ x, R x x) {r : Record} {place other : Location} {change : Slot → Slot}
    (apart : other ≠ place)
    (inside : ∀ f s, r.at? place = some (f, s) → ∀ item deeper,
      R ((f.enter s item).bind (·.holds deeper)) ((f.enter (change s) item).bind (·.holds deeper))) :
    R (r.holds other) ((r.modify place change).holds other) := by
  obtain ⟨hops, i⟩ := place
  obtain ⟨others, j⟩ := other
  induction hops generalizing r others with
  | nil =>
    cases others with
    | nil =>
      have elsewhere : i ≠ j := by
        rintro rfl
        exact apart rfl
      have same : (r.modify ⟨[], i⟩ change).holds ⟨[], j⟩ = r.holds ⟨[], j⟩ := by
        simp [holds, at?_here, member?_modify_here, elsewhere]
      rw [same]
      exact refl _
    | cons hop others =>
      rw [holds_cons, holds_cons]
      simp only [enter, member?_modify_here]
      cases entry : r.member? hop.field with
      | none => exact refl _
      | some found =>
        obtain ⟨f, s⟩ := found
        by_cases here : i = hop.field
        · subst here
          simpa using inside f s entry hop.item ⟨others, j⟩
        · simpa [here] using refl ((f.enter s hop.item).bind (·.holds ⟨others, j⟩))
  | cons hop hops ih =>
    cases others with
    | nil =>
      rw [holds_modify_cons]
      exact refl _
    | cons next others =>
      rw [holds_cons, holds_cons, enter_modify_cons]
      cases found : r.enter next with
      | none => exact refl _
      | some inner =>
        by_cases same : hop = next
        · subst same
          simp only [if_true, Option.map_some, Option.bind_some]
          refine ih ?_ others ?_
          · intro f s there
            refine inside f s ?_
            rw [at?_cons, found]
            exact there
          · intro here
            cases here
            exact apart rfl
        · simpa [same] using refl (inner.holds ⟨others, j⟩)

/-- Changing a field without structures in it leaves every other location alone. -/
theorem holds_modify_of_flat {r : Record} {place other : Location} (change : Slot → Slot)
    (flat : ∀ f s, r.at? place = some (f, s) → f.element? = none) (apart : other ≠ place) :
    (r.modify place change).holds other = r.holds other := by
  refine (holds_modify_rel (R := Eq) (fun _ => rfl) apart ?_).symm
  intro f s there item deeper
  simp only [Field.enter_of_flat (flat f s there)]

/-- Adding an element leaves every location alone that was there before. -/
theorem holds_modify_appendItem {r : Record} {place other : Location} (item : List Slot)
    (apart : other ≠ place) {held : Field × Slot} (before : r.holds other = some held) :
    (r.modify place (appendItem item)).holds other = some held := by
  refine holds_modify_rel (R := fun a b => ∀ x, a = some x → b = some x) (fun _ _ same => same) apart
    ?_ held before
  intro f s there asked deeper x found
  obtain ⟨inner, entered, deep⟩ := Option.bind_eq_some_iff.mp found
  have again : f.enter (appendItem item s) asked = some inner := by
    cases f with
    | primitive => cases entered
    | nested name repetition element =>
      cases s with
      | pad | int | bytes | struct => exact entered
      | elems items =>
        cases asked with
        | none => cases entered
        | some n =>
          obtain ⟨one, at_n, made⟩ := Option.map_eq_some_iff.mp entered
          have inside : n < items.length := (List.getElem?_eq_some_iff.mp at_n).1
          simp only [appendItem, Field.enter, List.getElem?_append_left inside, at_n, Option.map_some, made]
  rw [again]
  exact deep

end Record

end TradeWire

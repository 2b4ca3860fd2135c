import TradeWire.Proofs.Layout.WellFormed
import TradeWire.Proofs.Record.Places

/-! Where a path leads does not depend on what the fields hold. -/

set_option autoImplicit false
set_option relaxedAutoImplicit false

namespace TradeWire

namespace Record

/-- A hop leads by a nested field, which is no array or group when the hop names no element of it. -/
def EntersBy (r : Record) (hop : Hop) (inner : Record) : Prop :=
  Enters r hop inner ∧ ∃ name repetition, r.layout.fields[hop.field]? = some (.nested name repetition inner.layout) ∧
    (hop.item = none → repetition = .once)

/-- In a record that has its shape, what hops lead to has its shape too. -/
theorem Enters.entersBy {r inner : Record} {hop : Hop} (enters : Enters r hop inner) (shape : r.HasShape) :
    inner.HasShape ∧ EntersBy r hop inner := by
  have kinds := Layout.admits_iff.mp shape
  refine ⟨?_, enters, ?_⟩
  · cases enters with
    | whole nested held =>
      obtain ⟨_, same, kind⟩ := forall₂_getElem? kinds nested
      cases held.symm.trans same
      obtain ⟨_, _, form, below⟩ := kind.struct_inv
      cases form
      exact below
    | item nested held inside =>
      obtain ⟨_, same, kind⟩ := forall₂_getElem? kinds nested
      cases held.symm.trans same
      obtain ⟨_, _, _, form, _, all⟩ := kind.elems_inv
      cases form
      exact all _ (List.mem_of_getElem? inside)
  · cases enters with
    | whole nested held =>
      obtain ⟨_, same, kind⟩ := forall₂_getElem? kinds nested
      cases held.symm.trans same
      obtain ⟨_, _, form, _⟩ := kind.struct_inv
      cases form
      exact ⟨_, _, nested, fun _ => rfl⟩
    | item nested _ _ => exact ⟨_, _, nested, nofun⟩

/-- One part of a path: it names the field that the path leads to, or a hop behind which the path goes on. -/
theorem resolveParts_cons_eq_ok {path : String} {r : Record} {part : List Char} {rest : List (List Char)}
    {place : Location} : resolveParts path r.layout r.slots (part :: rest) = .ok place ↔
      ∃ segment i, parseSegment part = some segment ∧ r.layout.lookup? segment.name = some i ∧
        ((rest = [] ∧ segment.index = none ∧ place = ⟨[], i⟩) ∨
          ∃ item inner below, segment.index = item.map Int.ofNat ∧ EntersBy r ⟨i, item⟩ inner ∧
            resolveParts path inner.layout inner.slots rest = .ok below ∧ place = below.below ⟨i, item⟩) := by
  constructor
  · intro resolved
    unfold resolveParts at resolved
    split at resolved
    · cases resolved
    · rename_i segment parsed
      split at resolved
      · cases resolved
      · rename_i i found
        refine ⟨segment, i, parsed, found, ?_⟩
        split at resolved
        · rename_i final
          cases resolved
          rw [Bool.and_eq_true, List.isEmpty_iff, Option.isNone_iff_eq_none] at final
          exact .inl ⟨final.1, final.2, rfl⟩
        · refine .inr ?_
          split at resolved
          · rename_i name element inner nested held whole
            obtain ⟨below, further, rfl⟩ := map_eq_ok.mp resolved
            exact ⟨none, ⟨element, inner⟩, below, whole,
              ⟨.whole nested held, name, .once, nested, fun _ => rfl⟩, further, rfl⟩
          · rename_i name repetition element items n nested held index
            split at resolved
            · rename_i inside
              split at resolved
              · cases resolved
              · obtain ⟨below, further, rfl⟩ := map_eq_ok.mp resolved
                obtain ⟨k, rfl⟩ := Int.eq_ofNat_of_zero_le inside.1
                have number : k < items.length := by omega
                have at_k : items[k]? = some items[k] := List.getElem?_eq_getElem number
                rw [Int.toNat_natCast, List.getD_eq_getElem?_getD, at_k, Option.getD_some] at further
                exact ⟨some k, ⟨element, items[k]⟩, below, index,
                  ⟨.item nested held at_k, name, repetition, nested, nofun⟩, further, rfl⟩
            · cases resolved
          · cases resolved
  · rintro ⟨segment, i, parsed, found, ⟨rfl, whole, rfl⟩ | ⟨item, inner, below, index, entry, further, rfl⟩⟩
    · simp [resolveParts, parsed, found, whole]
    · obtain ⟨enters, name, repetition, nested, once⟩ := entry
      have goesOn : rest.isEmpty = false := by
        cases rest with
        | nil => cases further
        | cons => rfl
      rw [resolveParts, parsed]
      cases enters with
      | whole nested' held =>
        cases nested.symm.trans nested'
        cases once rfl
        simp [found, goesOn, nested, held, index, further, Except.map]
      | item nested' held inside =>
        cases nested.symm.trans nested'
        obtain ⟨number, rfl⟩ := List.getElem?_eq_some_iff.mp inside
        simp [found, goesOn, nested, held, index, number, further, Except.map]

private theorem resolveParts_of_follow {path : String} {r next : Record} (same : next.layout = r.layout)
    {parts : List (List Char)} {place : Location} (resolved : resolveParts path r.layout r.slots parts = .ok place)
    (there : (follow place.hops next.layout next.slots).isSome) :
    resolveParts path next.layout next.slots parts = .ok place := by
  induction parts generalizing r next place with
  | nil => cases resolved
  | cons part rest ih =>
    obtain ⟨segment, i, parsed, found, step⟩ := resolveParts_cons_eq_ok.mp resolved
    rw [← same] at found
    refine resolveParts_cons_eq_ok.mpr ⟨segment, i, parsed, found, ?_⟩
    rcases step with last | ⟨item, inner, below, index, ⟨_, name, repetition, nested, once⟩, further, rfl⟩
    · exact .inl last
    · rw [← same] at nested
      obtain ⟨owner, reached⟩ := Option.isSome_iff_exists.mp there
      simp only [Location.below] at reached
      rw [follow_cons] at reached
      obtain ⟨other, entered, onward⟩ := Option.bind_eq_some_iff.mp reached
      have enters := enter_eq_some.mp entered
      have alike : other.layout = inner.layout := by
        cases enters with
        | whole nested' _ | item nested' _ _ =>
          cases nested.symm.trans nested'
          rfl
      refine .inr ⟨item, other, below, index, ⟨enters, name, repetition, alike ▸ nested, once⟩, ?_, rfl⟩
      exact ih alike further (Option.isSome_iff_exists.mpr ⟨owner, onward⟩)

private theorem exists_at?_of_resolveParts {path : String} {r : Record} {parts : List (List Char)} {place : Location}
    (shape : r.HasShape) (resolved : resolveParts path r.layout r.slots parts = .ok place) :
    ∃ f s, r.at? place = some (f, s) ∧ f.isPad = false := by
  induction parts generalizing r place with
  | nil => cases resolved
  | cons part rest ih =>
    obtain ⟨segment, i, _, found, step⟩ := resolveParts_cons_eq_ok.mp resolved
    rcases step with ⟨_, _, rfl⟩ | ⟨item, inner, below, _, ⟨enters, _⟩, further, rfl⟩
    · obtain ⟨f, here, solid, _⟩ := Layout.lookup?_eq_some found
      obtain ⟨s, held, _⟩ := forall₂_getElem? (Layout.admits_iff.mp shape) here
      exact ⟨f, s, member?_eq_some.mpr ⟨here, held⟩, solid⟩
    · rw [at?_of_enters enters]
      exact ih (enters.entersBy shape).1 further

end Record

/-- The faults that a path is not resolved with: there is no such field, the index is that of no element, or
the path ends in a structure. -/
def FieldError.IsUnresolved (path : String) : FieldError → Prop
  | .unknownField _ missing => missing = path
  | .indexOutOfRange asked index count => asked = path ∧ ¬(0 ≤ index ∧ index < count)
  | .addressesStructure asked => asked = path
  | _ => False

namespace Record

private theorem isUnresolved_of_resolveParts {path : String} {l : Layout} {slots : List Slot}
    {parts : List (List Char)} {fault : FieldError} (failed : resolveParts path l slots parts = .error fault) :
    fault.IsUnresolved path := by
  have onward : ∀ {element : Layout} {inner : List Slot} {hop : Hop} {rest : List (List Char)},
      (resolveParts path element inner rest).map (·.below hop) = .error fault →
        resolveParts path element inner rest = .error fault := by
    intro element inner hop rest failed
    cases below : resolveParts path element inner rest with
    | error other =>
      rw [below] at failed
      exact failed
    | ok place =>
      rw [below] at failed
      cases failed
  induction parts generalizing l slots with
  | nil =>
    cases failed
    exact rfl
  | cons part rest ih =>
    unfold resolveParts at failed
    split at failed
    · cases failed
      exact rfl
    · split at failed
      · cases failed
        exact rfl
      · split at failed
        · cases failed
        · split at failed
          · exact ih (onward failed)
          · split at failed
            · split at failed
              · cases failed
                exact rfl
              · exact ih (onward failed)
            · rename_i outside
              cases failed
              exact ⟨rfl, outside⟩
          · cases failed
            exact rfl

/-- The record has an integer field of this width and form at a path. -/
def HasIntAt (r : Record) (path : String) (size : Nat) (form : IntForm) : Prop :=
  ∃ place s, r.locateInt path = .ok (place, size, form, s)

section Located

variable {r : Record} {path : String}

/-- A path resolves to a location of the record where a field is, or it says why it does not. -/
theorem resolve_spec (shape : r.HasShape) (path : String) :
    (∃ place f s, r.resolve path = .ok place ∧ r.at? place = some (f, s) ∧ f.isPad = false) ∨
      ∃ fault, r.resolve path = .error fault ∧ fault.IsUnresolved path := by
  cases resolved : r.resolve path with
  | error fault => exact .inr ⟨fault, rfl, isUnresolved_of_resolveParts resolved⟩
  | ok place =>
    obtain ⟨f, s, there, solid⟩ := exists_at?_of_resolveParts shape resolved
    exact .inl ⟨place, f, s, rfl, there, solid⟩

theorem locate_eq_ok {place : Location} {f : Field} {s : Slot} :
    r.locate path = .ok (place, f, s) ↔ r.resolve path = .ok place ∧ r.at? place = some (f, s) := by
  unfold locate
  cases r.resolve path with
  | error fault => simp
  | ok found =>
    cases there : r.at? found with
    | none =>
      simp only [there, reduceCtorEq, false_iff, Except.ok.injEq, not_and]
      rintro rfl
      simp [there]
    | some held =>
      obtain ⟨g, t⟩ := held
      simp only [there, Except.ok.injEq, Prod.mk.injEq]
      constructor
      · rintro ⟨rfl, rfl, rfl⟩
        exact ⟨rfl, there⟩
      · rintro ⟨rfl, same⟩
        rw [there] at same
        cases same
        exact ⟨rfl, rfl, rfl⟩

/-- A path leads where it leads in every record of the layout that has something there. -/
theorem resolve_of_at? {next : Record} {place : Location} {f : Field} {s : Slot}
    (same : next.layout = r.layout) (resolved : r.resolve path = .ok place)
    (there : next.at? place = some (f, s)) : next.resolve path = .ok place := by
  obtain ⟨owner, followed, _⟩ := Option.bind_eq_some_iff.mp there
  exact resolveParts_of_follow same resolved (Option.isSome_iff_exists.mpr ⟨owner, followed⟩)

theorem locate_modify {place : Location} {f : Field} {s : Slot} (change : Slot → Slot)
    (located : r.locate path = .ok (place, f, s)) :
    (r.modify place change).locate path = .ok (place, f, change s) := by
  obtain ⟨resolved, there⟩ := locate_eq_ok.mp located
  have changed : (r.modify place change).at? place = some (f, change s) := by
    rw [at?_modify, there, Option.map_some]
  exact locate_eq_ok.mpr ⟨resolve_of_at? (r := r) rfl resolved changed, changed⟩

theorem locateInt_of_locate {place : Location} {name type : String} {size : Nat} {form : IntForm} {s : Slot}
    (located : r.locate path = .ok (place, .primitive name type size (.int form), s)) :
    r.locateInt path = .ok (place, size, form, s) := by
  simp only [locateInt, located]

theorem locateInt_modify {place : Location} {size : Nat} {form : IntForm} {s : Slot} (raw : UInt64)
    (symbol : String) (located : r.locateInt path = .ok (place, size, form, s)) :
    (r.modify place fun _ => .int raw symbol).locateInt path = .ok (place, size, form, .int raw symbol) := by
  obtain ⟨name, type, found⟩ := locate_of_locateInt located
  exact locateInt_of_locate (locate_modify _ found)

/-- Integer fields of a sound layout are one to eight bytes wide, at any depth. -/
theorem width_of_locateInt (sound : r.layout.Sound) {place : Location} {size : Nat} {form : IntForm} {s : Slot}
    (located : r.locateInt path = .ok (place, size, form, s)) : 0 < size ∧ size ≤ 8 := by
  obtain ⟨name, type, found⟩ := locate_of_locateInt located
  obtain ⟨owner, inner, reached, here, _⟩ := at?_eq_some.mp (at?_of_locate found)
  have below : owner.Sound := by
    refine owner_of_follow ?_ sound reached
    intro l f element whole member nested
    exact (whole.field member).element element nested
  exact (below.field (List.mem_of_getElem? here)).width _ _ _ _ rfl

/-- Whatever hops lead to in a record of a table is of a layout of that table. -/
theorem owner_listed {m : Model} {t : Table} (accepted : m.IsAccepted) (compiled : Table.compile m = .ok t)
    (listed : r.layout ∈ t.layouts) {hops : List Hop} {owner : Layout} {inner : List Slot}
    (reached : follow hops r.layout r.slots = some (owner, inner)) : owner ∈ t.layouts := by
  refine owner_of_follow (P := (· ∈ t.layouts)) ?_ listed reached
  intro l f element inTable member nested
  exact ((Table.isWellFormed_of_compile accepted compiled inTable).elements f member element nested).1

section Values

variable {place : Location} {size : Nat} {form : IntForm} {s : Slot}

theorem uint_of_locateInt (located : r.locateInt path = .ok (place, size, form, s)) :
    r.uint path = .ok s.raw := by
  simp only [uint, located, Except.map]

theorem int_of_locateInt (located : r.locateInt path = .ok (place, size, form, s)) :
    r.int path = .ok (Word.toSigned s.raw) := by
  simp only [int, located, Except.map]

theorem decimal_of_locateInt (lib : DecimalLibrary) (located : r.locateInt path = .ok (place, size, form, s)) :
    r.decimal lib path = .ok (decimalText lib form.isSigned form.scale s.raw) := by
  simp only [decimal, located, Except.map]

end Values

end Located

end Record

end TradeWire

import TradeWire.Proofs.Record.Paths
import TradeWire.Proofs.Record.Places
import TradeWire.Protocol.Validate

/-! What a name stands for in a record. -/

set_option autoImplicit false
set_option relaxedAutoImplicit false

namespace TradeWire

/-- A layout knows a name when one of its fields has it that is no padding. -/
def Layout.Knows (l : Layout) (name : String) : Prop := ∃ f ∈ l.fields, f.isPad = false ∧ f.name = name

private theorem Layout.lookup?_isSome_iff {l : Layout} {name : String} :
    (l.lookup? name).isSome = true ↔ l.Knows name := by
  simp [lookup?, Knows]

/-- The first structure in a layout that knows a name. -/
structure Layout.IsHolder (l : Layout) (name : String) (i : Nat) (outer : String) (element : Layout) : Prop where
  nested : l.fields[i]? = some (.nested outer .once element)
  knows : element.Knows name
  first : ∀ k < i, ∀ other earlier, l.fields[k]? = some (.nested other .once earlier) → ¬earlier.Knows name

private theorem Protocol.fieldPath?_of_knows {l : Layout} {name : String} (known : l.Knows name) :
    fieldPath? l name = some name := by
  rw [fieldPath?, if_pos (Layout.lookup?_isSome_iff.mpr known)]

private theorem Protocol.fieldPath?_eq_some_iff {l : Layout} {name path : String} (absent : ¬l.Knows name) :
    fieldPath? l name = some path ↔
      ∃ i outer element, l.IsHolder name i outer element ∧ path = outer ++ "." ++ name := by
  rw [fieldPath?, if_neg (mt Layout.lookup?_isSome_iff.mp absent), Option.map_eq_some_iff]
  constructor
  · rintro ⟨f, found, rfl⟩
    obtain ⟨holds, i, inside, rfl, before⟩ := List.find?_eq_some_iff_getElem.mp found
    have here := List.getElem?_eq_getElem inside
    match f : l.fields[i], holds with
    | .nested outer .once element, holds =>
      refine ⟨i, outer, element, ⟨here.trans (congrArg some f), Layout.lookup?_isSome_iff.mp holds, ?_⟩, rfl⟩
      intro k smaller other earlier nested known
      have fails := before k smaller
      rw [(List.getElem?_eq_some_iff.mp nested).2] at fails
      simp [Layout.lookup?_isSome_iff.mpr known] at fails
  · rintro ⟨i, outer, element, ⟨nested, known, first⟩, rfl⟩
    obtain ⟨inside, here⟩ := List.getElem?_eq_some_iff.mp nested
    refine ⟨.nested outer .once element, List.find?_eq_some_iff_getElem.mpr
      ⟨Layout.lookup?_isSome_iff.mpr known, i, inside, here, ?_⟩, rfl⟩
    intro k smaller
    match f : l.fields[k] with
    | .nested other .once earlier =>
      have apart := first k smaller other earlier (List.getElem?_eq_some_iff.mpr ⟨_, f⟩)
      simpa using mt Layout.lookup?_isSome_iff.mp apart
    | .primitive .. | .nested _ (.array _) _ | .nested _ (.group ..) _ => rfl

namespace Record

/-- The record itself has a field of this name, with this slot. -/
structure Has (r : Record) (name : String) (f : Field) (s : Slot) : Prop where
  held : ∃ i, r.member? i = some (f, s)
  solid : f.isPad = false
  named : f.name = name

/-- The field that a name stands for in a record, with its slot. -/
inductive Names (r : Record) (name : String) (f : Field) (s : Slot) : Prop where
  | own (has : r.Has name f s) : Names r name f s
  | inner {i : Nat} {outer : String} {element : Layout} {slots : List Slot} (absent : ¬r.layout.Knows name)
      (holder : r.layout.IsHolder name i outer element) (held : r.slots[i]? = some (.struct slots))
      (has : Has ⟨element, slots⟩ name f s) : Names r name f s

end Record

/-- The layouts of a table are well formed, and their fields have plain names. -/
structure Table.IsAddressable (t : Table) : Prop where
  good : ∀ l ∈ t.layouts, l.IsWellFormed t
  plain : ∀ l ∈ t.layouts, ∀ f ∈ l.fields, Record.IsPlain f.name

theorem Table.isAddressable_of_compile {m : Model} {t : Table} (accepted : m.IsAccepted)
    (compiled : Table.compile m = .ok t)
    (plain : ∀ s ∈ m.structures, ∀ member ∈ s.members, Record.IsPlain member.name) : t.IsAddressable where
  good _ listed := Table.isWellFormed_of_compile accepted compiled listed
  plain _ listed := Table.isPlain_of_compile compiled plain listed

namespace Record

variable {t : Table} {r : Record} {name path : String} {f : Field} {s : Slot}

private theorem Has.exists_lookup (has : r.Has name f s) (good : r.layout.IsWellFormed t) :
    ∃ i, r.layout.lookup? name = some i ∧ r.layout.fields[i]? = some f ∧ r.slots[i]? = some s := by
  obtain ⟨⟨i, held⟩, solid, named⟩ := has
  obtain ⟨here, there⟩ := member?_eq_some.mp held
  exact ⟨i, (good.lookup name i).mpr ⟨f, here, solid, named⟩, here, there⟩

private theorem Has.knows (has : r.Has name f s) : r.layout.Knows name := by
  obtain ⟨⟨i, held⟩, solid, named⟩ := has
  exact ⟨f, List.mem_of_getElem? (member?_eq_some.mp held).1, solid, named⟩

private theorem exists_has (shape : r.HasShape) (known : r.layout.Knows name) : ∃ f s, r.Has name f s := by
  obtain ⟨f, listed, solid, named⟩ := known
  obtain ⟨i, here⟩ := List.mem_iff_getElem?.mp listed
  obtain ⟨s, there, _⟩ := forall₂_getElem? (Layout.admits_iff.mp shape) here
  exact ⟨f, s, ⟨i, member?_eq_some.mpr ⟨here, there⟩⟩, solid, named⟩

section Addressable

variable (addressable : t.IsAddressable) (listed : r.layout ∈ t.layouts)
include addressable listed

private theorem Has.locate (has : r.Has name f s) : ∃ place, r.locate name = .ok (place, f, s) := by
  obtain ⟨i, found, here, there⟩ := has.exists_lookup (addressable.good _ listed)
  have plain : IsPlain name := has.named ▸ addressable.plain _ listed f (List.mem_of_getElem? here)
  exact ⟨_, locate_of_lookup? plain found here there⟩

private theorem Has.locate_inner {i : Nat} {outer : String} {element : Layout} {slots : List Slot}
    (nested : r.layout.fields[i]? = some (.nested outer .once element))
    (held : r.slots[i]? = some (.struct slots)) (has : Has ⟨element, slots⟩ name f s) :
    ∃ place, r.locate (outer ++ "." ++ name) = .ok (place, f, s) := by
  have good := addressable.good _ listed
  have member := List.mem_of_getElem? nested
  obtain ⟨below, _⟩ := good.elements _ member element rfl
  obtain ⟨j, found, here, there⟩ := has.exists_lookup (addressable.good _ below)
  have plain : IsPlain outer := addressable.plain _ listed _ member
  have plainField : IsPlain name := has.named ▸ addressable.plain _ below f (List.mem_of_getElem? here)
  have outerFound : r.layout.lookup? outer = some i := (good.lookup outer i).mpr ⟨_, nested, rfl, rfl⟩
  exact ⟨_, locate_sessionPath plain plainField outerFound nested held found here there⟩

theorem Names.exists_path (names : r.Names name f s) :
    ∃ path place, Protocol.fieldPath? r.layout name = some path ∧ r.locate path = .ok (place, f, s) := by
  cases names with
  | own has =>
    obtain ⟨place, located⟩ := has.locate addressable listed
    exact ⟨name, place, Protocol.fieldPath?_of_knows has.knows, located⟩
  | @inner i outer element slots absent holder held has =>
    obtain ⟨place, located⟩ := has.locate_inner addressable listed holder.nested held
    exact ⟨_, place, (Protocol.fieldPath?_eq_some_iff absent).mpr ⟨i, outer, element, holder, rfl⟩, located⟩

/-- A path that is found for a name leads to what the name stands for. -/
theorem exists_names (shape : r.HasShape) (found : Protocol.fieldPath? r.layout name = some path) :
    ∃ place f s, r.locate path = .ok (place, f, s) ∧ r.Names name f s := by
  by_cases known : r.layout.Knows name
  · rw [Protocol.fieldPath?_of_knows known] at found
    cases found
    obtain ⟨f, s, has⟩ := exists_has shape known
    obtain ⟨place, located⟩ := has.locate addressable listed
    exact ⟨place, f, s, located, .own has⟩
  · obtain ⟨i, outer, element, holder, rfl⟩ := (Protocol.fieldPath?_eq_some_iff known).mp found
    obtain ⟨u, held, kind⟩ := forall₂_getElem? (Layout.admits_iff.mp shape) holder.nested
    cases u with
    | struct slots =>
      obtain ⟨f, s, has⟩ := exists_has (r := ⟨element, slots⟩) kind holder.knows
      obtain ⟨place, located⟩ := has.locate_inner addressable listed holder.nested held
      exact ⟨place, f, s, located, .inner known holder held has⟩
    | pad | int | bytes | elems => cases kind

end Addressable

end Record

end TradeWire

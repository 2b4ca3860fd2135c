import TradeWire.Proofs.Protocol.Checking
import TradeWire.Proofs.Protocol.Mandatory
import TradeWire.Proofs.Record.Naming

/-! A message is accepted exactly when it and the elements of its groups have all mandatory fields. -/

set_option autoImplicit false
set_option relaxedAutoImplicit false

namespace TradeWire

open Schema

/-- The slot of a field holds a value. A number does when it is not the one that stands for no value, or when it
is a counter; a byte string does when one of its bytes is not zero. -/
def Field.HoldsValue (f : Field) (s : Slot) : Prop :=
  match f with
  | .primitive _ _ _ (.int form) => form.governs = true ∨ form.noValue ≠ some s.raw
  | .primitive _ _ _ (.bytes _) | .primitive _ _ _ (.varBytes _) => ∃ b ∈ s.data, b ≠ 0
  | _ => True

private theorem Field.holdsValue_iff {f : Field} {s : Slot} : f.HoldsValue s ↔ Protocol.lacksValue f s = false := by
  match f with
  | .primitive _ _ _ (.int form) => simp [HoldsValue, Protocol.lacksValue, Decidable.or_iff_not_imp_left]
  | .primitive _ _ _ (.bytes _) | .primitive _ _ _ (.varBytes _) => simp [HoldsValue, Protocol.lacksValue]
  | .primitive _ _ _ .pad | .nested .. => simp [HoldsValue, Protocol.lacksValue]

namespace Record

/-- The elements that a field of a container holds, if it is a group, with the name of their container. -/
def groupParts (container : String) : Field × Slot → List (String × Record)
  | (.nested name (.group ..) element, .elems items) =>
    items.map fun slots => (container ++ "." ++ name, ⟨element, slots⟩)
  | _ => []

/-- The instances that a message is made of, each with the name of its container: the message itself and then,
in order, the elements of its groups. -/
def parts (r : Record) : List (String × Record) :=
  (r.name, r) :: (r.layout.fields.zip r.slots).flatMap (groupParts r.name)

private theorem mem_zip_iff {r : Record} {part : Field × Slot} :
    part ∈ r.layout.fields.zip r.slots ↔ ∃ i, r.member? i = some part := by
  obtain ⟨f, s⟩ := part
  simp only [List.mem_iff_getElem?, List.getElem?_zip_eq_some, member?_eq_some]

private theorem mem_groupParts {container : String} {part : Field × Slot} {found : String × Record}
    (member : found ∈ groupParts container part) :
    ∃ name counter least most element items slots,
      part = (.nested name (.group counter least most) element, .elems items) ∧ slots ∈ items ∧
        found = (container ++ "." ++ name, ⟨element, slots⟩) := by
  unfold groupParts at member
  split at member
  · rename_i name counter least most element items
    obtain ⟨slots, inside, rfl⟩ := List.mem_map.mp member
    exact ⟨name, counter, least, most, element, items, slots, rfl, inside, rfl⟩
  · cases member

end Record

namespace Protocol

/-- Every mandatory field of an instance holds a value. -/
def IsComplete (p : Protocol) (container : String) (r : Record) : Prop :=
  ∀ field, p.IsMandatory container field → ∀ f s, r.Names field f s → f.HoldsValue s

/-- A mandatory field of an instance does not hold a value. -/
def Misses (p : Protocol) (container : String) (r : Record) (field : String) : Prop :=
  p.IsMandatory container field ∧ ∃ f s, r.Names field f s ∧ ¬f.HoldsValue s

private theorem isComplete_iff {p : Protocol} {container : String} {r : Record} :
    p.IsComplete container r ↔ ∀ field, ¬p.Misses container r field := by
  simp [IsComplete, Misses]

def checkPart (p : Protocol) (part : String × Record) : Except ValidationError Unit :=
  validateFields part.1 part.2 (p.mandatoryFields part.1)

section Groups

variable {p : Protocol} {container : String}

private theorem validateGroups_eq_checkAll {r : Record} {fields : List Field} {slots : List Slot}
    (each : ∀ part ∈ fields.zip slots,
      validateGroup p container r part.1 part.2 = checkAll p.checkPart (Record.groupParts container part)) :
    validateGroups p container r fields slots =
      checkAll p.checkPart ((fields.zip slots).flatMap (Record.groupParts container)) := by
  induction fields generalizing slots with
  | nil => rfl
  | cons f fs ih =>
    cases slots with
    | nil => rfl
    | cons s ss =>
      obtain ⟨here, later⟩ := List.forall_mem_cons.mp each
      rw [validateGroups, here, ih later, List.zip_cons_cons, List.flatMap_cons, checkAll_append]
      cases checkAll p.checkPart (Record.groupParts container (f, s)) with
      | error fault => rfl
      | ok => rfl

private theorem validateGroup_of_fixed {r : Record} {f : Field} (fixed : f.isDynamic = false) (s : Slot) :
    validateGroup p container r f s = checkAll p.checkPart (Record.groupParts container (f, s)) := by
  match f with
  | .primitive .. | .nested _ .once _ | .nested _ (.array _) _ => rfl

private theorem groupParts_of_fixed {f : Field} (fixed : f.isDynamic = false) (s : Slot) :
    Record.groupParts container (f, s) = [] := by
  match f with
  | .primitive .. | .nested _ .once _ | .nested _ (.array _) _ => rfl

private theorem validateSlots_of_isConstant {l : Layout} (constant : l.IsConstant) (slots : List Slot) :
    validateSlots p container l slots = p.checkPart (container, ⟨l, slots⟩) := by
  cases constant with
  | @mk name message size fields fixed below =>
    have groups : ∀ r, validateGroups p container r fields slots = .ok () := by
      intro r
      have none : (fields.zip slots).flatMap (Record.groupParts container) = [] := by
        refine List.flatMap_eq_nil_iff.mpr ?_
        intro part member
        exact groupParts_of_fixed (fixed part.1 (List.of_mem_zip member).1) part.2
      rw [validateGroups_eq_checkAll, none, checkAll]
      intro part member
      exact validateGroup_of_fixed (fixed part.1 (List.of_mem_zip member).1) part.2
    simp only [validateSlots, groups, checkPart]
    cases validateFields container ⟨.mk name message size fields, slots⟩ (p.mandatoryFields container) with
    | error fault => rfl
    | ok => rfl

end Groups

private theorem isPlainName_iff {name : String} : isPlainName name = true ↔ Record.IsPlain name := by
  simp [isPlainName, Record.IsPlain]

section Addressable

variable {p : Protocol} {t : Table} {r : Record} {container : String} (addressable : t.IsAddressable)
  (listed : r.layout ∈ t.layouts)
include addressable listed

private theorem validateGroup_eq_checkAll {part : Field × Slot} (member : part ∈ r.layout.fields.zip r.slots) :
    validateGroup p container r part.1 part.2 = checkAll p.checkPart (Record.groupParts container part) := by
  obtain ⟨f, s⟩ := part
  match f, s with
  | .primitive .., _ | .nested _ .once _, _ | .nested _ (.array _) _, _
  | .nested _ (.group ..) _, .pad | .nested _ (.group ..) _, .int _ _ | .nested _ (.group ..) _, .bytes _
  | .nested _ (.group ..) _, .struct _ => rfl
  | .nested name (.group counter least most) element, .elems items =>
    obtain ⟨i, held⟩ := Record.mem_zip_iff.mp member
    obtain ⟨here, there⟩ := Record.member?_eq_some.mp held
    have good := addressable.good _ listed
    have inside := List.mem_of_getElem? here
    obtain ⟨_, _, _, _, constant⟩ := good.elements _ inside element rfl
    have plain : Record.IsPlain name := addressable.plain _ listed _ inside
    have found : r.layout.lookup? name = some i := (good.lookup name i).mpr ⟨_, here, rfl, rfl⟩
    have located := Record.locate_of_lookup? plain found here there
    simp only [validateGroup, Record.elems, located, isPlainName_iff.mpr plain, if_true, Record.groupParts,
      checkAll_map]
    exact checkAll_congr fun slots _ => validateSlots_of_isConstant constant slots

private theorem validate_eq_checkAll (message : r.layout.isMessage = true) :
    p.validate r = checkAll p.checkPart r.parts := by
  have groups : validateGroups p r.name r r.layout.fields r.slots =
      checkAll p.checkPart ((r.layout.fields.zip r.slots).flatMap (Record.groupParts r.name)) :=
    validateGroups_eq_checkAll fun _ member => validateGroup_eq_checkAll addressable listed member
  rw [validate, if_pos message, Record.parts, checkAll, ← groups]
  obtain ⟨⟨name, info, size, fields⟩, slots⟩ := r
  simp only [validateSlots, checkPart]
  cases validateFields _ _ _ with
  | error fault => rfl
  | ok => rfl

private theorem mem_layouts_of_parts (shape : r.HasShape) {part : String × Record} (member : part ∈ r.parts) :
    part.2.layout ∈ t.layouts ∧ part.2.HasShape := by
  rcases List.mem_cons.mp member with rfl | below
  · exact ⟨listed, shape⟩
  · obtain ⟨⟨f, s⟩, paired, inside⟩ := List.mem_flatMap.mp below
    obtain ⟨name, counter, least, most, element, items, slots, same, held, rfl⟩ := Record.mem_groupParts inside
    cases same
    obtain ⟨i, there⟩ := Record.mem_zip_iff.mp paired
    obtain ⟨here, there⟩ := Record.member?_eq_some.mp there
    obtain ⟨u, again, kind⟩ := forall₂_getElem? (Layout.admits_iff.mp shape) here
    rw [there] at again
    cases again
    have listedBelow := ((addressable.good _ listed).elements _ (List.mem_of_getElem? here) element rfl).1
    exact ⟨listedBelow, kind slots held⟩

private theorem validateField_cases (shape : r.HasShape) (container name : String) :
    (validateField container r name = .ok () ∧ ∀ f s, r.Names name f s → f.HoldsValue s) ∨
      ∃ fault, validateField container r name = .error fault ∧ fault = .missingField container name ∧
        ∃ f s, r.Names name f s ∧ ¬f.HoldsValue s := by
  unfold validateField
  cases found : fieldPath? r.layout name with
  | none =>
    refine .inl ⟨rfl, ?_⟩
    intro f s names
    obtain ⟨path, _, other, _⟩ := names.exists_path addressable listed
    rw [found] at other
    cases other
  | some path =>
    obtain ⟨place, f, s, located, names⟩ := Record.exists_names addressable listed shape found
    simp only [located]
    cases lacks : lacksValue f s with
    | true => exact .inr ⟨_, rfl, rfl, f, s, names, by simp [Field.holdsValue_iff, lacks]⟩
    | false =>
      refine .inl ⟨rfl, ?_⟩
      intro g u others
      obtain ⟨same, _, there, again⟩ := others.exists_path addressable listed
      rw [found] at there
      cases there
      rw [located] at again
      cases again
      exact Field.holdsValue_iff.mpr lacks

end Addressable

section Parsed

variable {document : Bytes} {p : Protocol}

private theorem checkPart_cases (parsed : Protocol.parse document = .ok p) (addressable : p.table.IsAddressable)
    {part : String × Record} (listed : part.2.layout ∈ p.table.layouts) (shape : part.2.HasShape) :
    (p.checkPart part = .ok () ∧ p.IsComplete part.1 part.2) ∨
      ∃ fault, p.checkPart part = .error fault ∧ ∃ field, fault = .missingField part.1 field ∧
        p.Misses part.1 part.2 field ∧
          ∀ other, p.Misses part.1 part.2 other → Text.encodeUtf8 field ≤ Text.encodeUtf8 other := by
  obtain ⟨container, r⟩ := part
  have known {field : String} : field ∈ p.mandatoryFields container ↔ p.IsMandatory container field :=
    mem_mandatoryFields parsed
  have ordered := pairwise_mandatoryFields parsed container
  rw [checkPart, validateFields_eq_checkAll]
  rcases checkAll_cases fun field _ => validateField_cases addressable listed shape container field with
    ⟨passed, holds⟩ | ⟨before, field, after, fault, sorted, failed, ⟨rfl, missed⟩, holds⟩
  · exact .inl ⟨passed, fun field mandatory => holds field (known.mpr mandatory)⟩
  · refine .inr ⟨_, failed, field, rfl, ⟨known.mp (by simp [sorted]), missed⟩, ?_⟩
    -- a name that is missed is none of those before, so it stands behind the one reported
    rintro other ⟨mandatory, f, s, names, lacks⟩
    have inside := known.mpr mandatory
    rw [sorted] at inside ordered
    rcases List.mem_append.mp inside with earlier | later
    · exact absurd (holds other earlier f s names) lacks
    · rcases List.mem_cons.mp later with rfl | later
      · exact List.le_refl _
      · exact List.rel_of_pairwise_cons (List.pairwise_append.mp ordered).2.1 later

/-- A message is accepted if and only if every mandatory field that it has holds a value, and so does every
mandatory field of each element of its groups. A message that is not accepted is refused for a field that is
mandatory and lacks its value. It belongs to the first of the instances that lack one, the message itself before
the elements of its groups and these in their order; and its name is the first one in the order of bytes that is
missing there. -/
theorem validate_reports (parsed : Protocol.parse document = .ok p)
    (plain : ∀ s ∈ p.model.structures, ∀ member ∈ s.members, Record.IsPlain member.name) {r : Record}
    (listed : r.layout ∈ p.table.layouts) (message : r.layout.isMessage = true) (shape : r.HasShape) :
    (p.validate r = .ok () ↔ ∀ part ∈ r.parts, p.IsComplete part.1 part.2) ∧
    ∀ fault, p.validate r = .error fault → ∃ before container part after field,
      r.parts = before ++ (container, part) :: after ∧ fault = .missingField container field ∧
        p.Misses container part field ∧ (∀ earlier ∈ before, p.IsComplete earlier.1 earlier.2) ∧
          ∀ other, p.Misses container part other → Text.encodeUtf8 field ≤ Text.encodeUtf8 other := by
  obtain ⟨read, compiled, _⟩ := parse_eq_ok parsed
  have addressable := Table.isAddressable_of_compile (Model.isAccepted_of_parse read) compiled plain
  have fits : ∀ part ∈ r.parts, part.2.layout ∈ p.table.layouts ∧ part.2.HasShape := fun _ member =>
    mem_layouts_of_parts addressable listed shape member
  rw [validate_eq_checkAll addressable listed message]
  rcases checkAll_cases fun part member =>
      checkPart_cases parsed addressable (fits part member).1 (fits part member).2 with
    ⟨passed, complete⟩ |
      ⟨before, ⟨container, part⟩, after, fault, split, failed, ⟨field, rfl, missed, first⟩, complete⟩
  · refine ⟨iff_of_true passed complete, ?_⟩
    rw [passed]
    nofun
  · have incomplete : ¬∀ part ∈ r.parts, p.IsComplete part.1 part.2 := fun all =>
      isComplete_iff.mp (all (container, part) (by simp [split])) field missed
    refine ⟨iff_of_false (by simp [failed]) incomplete, ?_⟩
    intro fault refused
    rw [failed] at refused
    cases refused
    exact ⟨before, container, part, after, field, split, rfl, missed, complete, first⟩

/-- Where usages are declared by ascending names, they are checked in the order in which they are declared. -/
theorem validate_eq_of_pairwise (parsed : Protocol.parse document = .ok p) (addressable : p.table.IsAddressable)
    {r : Record} (listed : r.layout ∈ p.table.layouts) (message : r.layout.isMessage = true)
    (ascending : ∀ part ∈ r.parts,
      (mandatoryIn p.model.usages part.1).Pairwise fun a b => Text.isAtMost a b = true) :
    p.validate r =
      checkAll (fun part => validateFields part.1 part.2 (mandatoryIn p.model.usages part.1)) r.parts := by
  rw [validate_eq_checkAll addressable listed message]
  refine checkAll_congr fun part member => ?_
  rw [checkPart, mandatoryFields_of_parse parsed, List.mergeSort_of_pairwise (ascending part member)]

/-- A schema with one message. Its sender is a mandatory field of a structure, and its legs are to have a tag and
a price. -/
def orderDocument : Bytes := List.flatMap Text.encodeUtf8
  ["<Model><DataTypes><DataType name='Len' rootType='int' size='4' minValue='0'/>",
    "<DataType name='Id' rootType='int' size='2'/><DataType name='T' rootType='String' size='2'/>",
    "<DataType name='N' rootType='int' size='1' minValue='0' noValue='255'/></DataTypes>",
    "<Structures><Structure name='MessageHeaderComp'><Member name='BodyLen' type='Len' cardinality='1'/>",
    "<Member name='TemplateID' type='Id' cardinality='1'/></Structure>",
    "<Structure name='Party'><Member name='Sender' type='T' cardinality='1'/></Structure>",
    "<Structure name='Leg'><Member name='Tag' type='T' cardinality='1'/>",
    "<Member name='Price' type='N' cardinality='1'/></Structure>",
    "<Structure name='Order' type='Message' numericID='1'>",
    "<Member name='Header' type='MessageHeaderComp' cardinality='1'/>",
    "<Member name='Party' type='Party' cardinality='1'/><Member name='Count' type='N' cardinality='1'/>",
    "<Member name='Legs' type='Leg' cardinality='3' minCardinality='0' counter='Count'/></Structure>",
    "</Structures><ApplicationMessages><ApplicationMessage name='Order'>",
    "<Member name='Sender' usage='mandatory'/><Group name='Legs'><Member name='Price' usage='mandatory'/>",
    "<Member name='Tag' usage='mandatory'/></Group></ApplicationMessage></ApplicationMessages></Model>"]

/-- An order with two legs, the second of which has neither tag nor price. -/
def orderBytes : Bytes := [15, 0, 0, 0, 1, 0, 65, 0, 2, 88, 0, 7, 0, 0, 255]

theorem order_validate_reports : ∃ p r, Protocol.parse orderDocument = .ok p ∧
    (∀ s ∈ p.model.structures, ∀ member ∈ s.members, Record.IsPlain member.name) ∧
    r.layout ∈ p.table.layouts ∧ r.layout.isMessage = true ∧ r.HasShape ∧
    r.parts.map (·.1) = ["Order", "Order.Legs", "Order.Legs"] ∧
    p.validate r = .error (.missingField "Order.Legs" "Price") ∧
    ¬(∀ part ∈ r.parts, p.IsComplete part.1 part.2) ∧
    ∃ before part after, r.parts = before ++ ("Order.Legs", part) :: after ∧
      p.Misses "Order.Legs" part "Price" ∧ ∀ earlier ∈ before, p.IsComplete earlier.1 earlier.2 := by
  have run : ((Protocol.parse orderDocument).toOption.any fun p =>
      (p.model.structures.all fun s => s.members.all fun member => decide (Record.IsPlain member.name)) &&
      p.table.layouts.any fun l => l.isMessage && (Record.unpack l orderBytes 0).toOption.any fun answer =>
        answer.1.parts.map (·.1) == ["Order", "Order.Legs", "Order.Legs"] &&
        (answer.1.parts.all fun part => decide
          ((mandatoryIn p.model.usages part.1).Pairwise fun a b => Text.isAtMost a b = true)) &&
        fault? (checkAll (fun part => validateFields part.1 part.2 (mandatoryIn p.model.usages part.1))
          answer.1.parts) == some (.missingField "Order.Legs" "Price")) = true := by
    rw [orderDocument, Text.encodeUtf8_eq]
    decide +kernel
  simp only [Option.any_eq_true, toOption_eq_some, Bool.and_eq_true, List.all_eq_true, List.any_eq_true,
    decide_eq_true_eq, beq_iff_eq, fault?_eq_some] at run
  obtain ⟨p, parsed, plain, l, listed, message, ⟨r, stop⟩, unpacked, ⟨names, ascending⟩, refused⟩ := run
  obtain ⟨same, shape⟩ := (Record.Reachable.unpack unpacked).hasShape
  subst same
  obtain ⟨read, compiled, _⟩ := parse_eq_ok parsed
  have addressable := Table.isAddressable_of_compile (Model.isAccepted_of_parse read) compiled plain
  rw [← validate_eq_of_pairwise parsed addressable listed message ascending] at refused
  obtain ⟨accepts, reports⟩ := validate_reports parsed plain listed message shape
  refine ⟨p, r, parsed, plain, listed, message, shape, names, refused, ?_, ?_⟩
  · rw [← accepts, refused]
    nofun
  · obtain ⟨before, container, part, after, field, split, named, missed, complete, _⟩ := reports _ refused
    cases named
    exact ⟨before, part, after, split, missed, complete⟩

end Parsed

end Protocol

end TradeWire

import TradeWire.Proofs.Number.Literals
import TradeWire.Proofs.Schema.Templates
import TradeWire.Proofs.Text.ByteOrder

/-! Every name that a model uses is declared in it once. -/

set_option autoImplicit false
set_option relaxedAutoImplicit false

namespace TradeWire

open Schema
open Markup (Element)

namespace Schema

/-- The values of a data type in the order of what they denote: a number, or a text by its bytes. -/
structure DataType.SortsValues (declared : List ValidValue) (t : DataType) : Prop where
  integers : t.isChar = false → ∀ v ∈ declared, Literal.integer v.value = .ok (Literal.value v.value)
  byNumber : t.isChar = false → IsStableSort (fun v => Literal.value v.value) declared t.values
  byBytes : t.isChar = true → IsStableSort (fun v => Text.encodeUtf8 v.value) declared t.values

/-- A member with the counter it names itself, or else with that of its data type. -/
structure Member.Settled (types : List DataType) (e : Element) (member : Member) : Prop where
  name : member.name = Text.trim (e.value "name")
  type : member.type = Text.trim (e.value "type")
  own : Text.trim (e.value "counter") ≠ "" → member.counter = Text.trim (e.value "counter")
  inherited : Text.trim (e.value "counter") = "" →
    ∀ t ∈ types, t.name = member.type → member.counter = t.counter

end Schema

/-- The names that the members of a model may have as their types. -/
def Model.typeNames (m : Model) : List String := m.types.map (·.name) ++ m.structures.map (·.name)

/-- A model that uses declared names only and declares no name twice, as its document has it. -/
structure Model.IsClosed (root : Element) (m : Model) : Prop where
  names : m.typeNames.Nodup
  structures : m.structures.map (·.name) =
    (root.nestedNamed "Structures" "Structure").map fun e => Text.trim (e.value "name")
  members : ∀ s ∈ m.structures, (s.members.map (·.name)).Nodup
  memberTypes : ∀ s ∈ m.structures, ∀ member ∈ s.members, m.typeNames.count member.type = 1
  templates : ∀ template, template ∈ m.templates ↔
    ∃ s ∈ m.structures, s.isMessage = true ∧ ⟨s.templateId, s.name⟩ = template
  ascending : m.templates.Pairwise fun a b => a.id < b.id
  positive : ∀ template ∈ m.templates, 0 < template.id
  integers : ∀ t ∈ m.types, t.isInteger = true → t.size ∈ [1, 2, 4, 8] ∧ t.precision ≤ 18
  values : List.Forall₂ (fun e t => t.SortsValues (declaredValues e))
    (root.nestedNamed "DataTypes" "DataType") m.types
  counters : List.Forall₂
    (fun e s => List.Forall₂ (Member.Settled m.types) (e.childrenNamed "Member") s.members)
    (root.nestedNamed "Structures" "Structure") m.structures
  requests : m.flows.map (·.1) = ((root.nestedNamed "MessageFlows" "MessageFlow").map flowRequest).eraseDups
  requestsOnce : (m.flows.map (·.1)).Nodup
  requested : ∀ flow ∈ m.flows, ∃ s ∈ m.structures, s.name = flow.1
  answers : ∀ flow ∈ m.flows, ∀ entry, OccursIn FlowEntry.children entry flow.2 → entry.isNode = false →
    ∃ s ∈ m.structures, s.name = entry.name

namespace Schema

private theorem ReadsType.sortsValues {e : Element} {t : DataType} (reads : ReadsType e t) :
    t.SortsValues (declaredValues e) := by
  have integers : t.isChar = false → ∀ v ∈ declaredValues e,
      Literal.integer v.value = .ok (Literal.value v.value) := by
    intro other v declared
    obtain ⟨n, value⟩ := reads.integers other v declared
    rw [value, (Literal.value_of_integer value).1]
  refine ⟨integers, ?_, ?_⟩
  · intro other
    have number : ∀ v ∈ declaredValues e, valueNumber v = Literal.value v.value := by
      intro v declared
      simp only [valueNumber, integers other v declared]
    rw [reads.values, sortValues, other]
    refine IsStableSort.congr number (isStableSort_sortBy ?_ _)
    intro a b
    exact decide_eq_true_iff
  · intro char
    rw [reads.values, sortValues, char]
    refine isStableSort_sortBy ?_ _
    intro a b
    rw [decide_eq_true_iff, Text.encodeUtf8_le_iff]

private theorem ReadsMember.settled {types : List DataType} {all : List Structure} {owner : String} {e : Element}
    {member resolved : Member} (distinct : (types.map (·.name)).Nodup) (reads : ReadsMember e member)
    (done : resolveMember types all owner member = .ok resolved) : resolved.Settled types e := by
  rcases resolveMember_eq_ok done with ⟨t, found, rfl⟩ | ⟨unknown, _, rfl⟩
  · have name : t.name = member.type := by simpa using List.find?_some found
    refine ⟨reads.name, reads.type, ?_, ?_⟩
    · intro own
      rw [← reads.counter] at own
      simp only [own, if_false]
      exact reads.counter
    · intro blank u listed same
      rw [← reads.counter] at blank
      have only : u = t :=
        List.inj_on_of_nodup_map distinct listed (List.mem_of_find?_eq_some found) (same.trans name.symm)
      simp only [blank, if_true, only]
  · refine ⟨reads.name, reads.type, fun _ => reads.counter, ?_⟩
    intro _ t listed same
    have absent := List.find?_eq_none.mp unknown t listed
    exact absurd (beq_iff_eq.mpr same) absent

end Schema

namespace Model.ReadFrom

variable {root : Element} {declared : List Structure} {m : Model}

private theorem typeNames_nodup (reads : Model.ReadFrom root declared m) : m.typeNames.Nodup := by
  refine List.nodup_append.mpr ⟨reads.types.distinct, reads.isAccepted.structures, ?_⟩
  intro a first b second same
  obtain ⟨t, listed, rfl⟩ := List.mem_map.mp first
  obtain ⟨s, member, rfl⟩ := List.mem_map.mp second
  exact reads.apart member listed same

theorem memberType_mem (reads : Model.ReadFrom root declared m) {s : Structure}
    (inside : s ∈ m.structures)
    {member : Member} (listed : member ∈ s.members) : member.type ∈ m.typeNames := by
  obtain ⟨_, old, _, _, resolved⟩ := reads.exists_declared inside
  obtain ⟨members, rfl, related⟩ := resolveStructure_eq_ok resolved
  obtain ⟨source, _, done⟩ := exists_of_forall₂_right related listed
  rw [Model.typeNames, reads.structureNames]
  rcases resolveMember_eq_ok done with ⟨t, found, rfl⟩ | ⟨_, ⟨s', known, name⟩, rfl⟩
  · have name : t.name = source.type := by simpa using List.find?_some found
    exact List.mem_append_left _ (List.mem_map.mpr ⟨t, List.mem_of_find?_eq_some found, name⟩)
  · exact List.mem_append_right _ (List.mem_map.mpr ⟨s', known, name⟩)

private theorem settled (reads : Model.ReadFrom root declared m) :
    List.Forall₂ (fun e s => List.Forall₂ (Member.Settled m.types) (e.childrenNamed "Member") s.members)
      (root.nestedNamed "Structures" "Structure") m.structures := by
  refine forall₂_trans ?_ reads.structures.each reads.resolved
  intro e old s source resolved
  obtain ⟨members, rfl, related⟩ := resolveStructure_eq_ok resolved
  refine forall₂_trans ?_ source.members.each related
  intro e member new readsMember done
  exact readsMember.settled reads.types.distinct done

end Model.ReadFrom

/-- A document that is read gives a closed and unambiguous model. -/
theorem Model.isClosed_of_parse {document : Bytes} {root : Element} {m : Model}
    (tree : Markup.root document = .ok root) (read : Model.parse document = .ok m) : m.IsClosed root := by
  obtain ⟨_, declared, found, reads⟩ := Model.readFrom_of_parse read
  obtain rfl := Except.ok.inj (tree.symm.trans found)
  have accepted := reads.isAccepted
  have numbered := reads.areNumbered
  have templates : ∀ template, template ∈ m.templates ↔
      ∃ s ∈ m.structures, s.isMessage = true ∧ ⟨s.templateId, s.name⟩ = template := by
    intro template
    rw [reads.templates, mem_templatesOf]
  refine ⟨reads.typeNames_nodup, ?_, accepted.members, ?_, templates, ?_, ?_, ?_, ?_, reads.settled,
    reads.flows.requests, reads.flows.distinct, reads.flows.declared, ?_⟩
  · rw [reads.structureNames]
    exact map_eq_of_forall₂ reads.structures.each fun _ _ source => source.name
  · intro s inside member listed
    exact List.count_eq_one_of_mem reads.typeNames_nodup (reads.memberType_mem inside listed)
  · rw [reads.templates]
    exact numbered.ascending
  · intro template listed
    obtain ⟨s, inside, message, rfl⟩ := (templates template).mp listed
    exact (numbered.bounds s inside message).1
  · intro t listed integer
    obtain ⟨e, _, source⟩ := exists_of_forall₂_right reads.types.each listed
    exact ⟨accepted.widths t listed integer, source.precision⟩
  · exact reads.types.each.imp fun _ _ source => source.sortsValues
  · intro flow listed entry occurs message
    obtain ⟨e, _, below⟩ := reads.flows.entries flow listed
    exact exists_of_occurs below occurs message

/-- A schema with unsorted values, a member that inherits its counter, and a request with two flows. -/
def mixedOrderDocument : Bytes := List.flatMap Text.encodeUtf8
  ["<Model><DataTypes><DataType name='K' rootType='int' size='1' counter='N'>",
    "<ValidValue name='Hex' value='0x10'/><ValidValue name='Two' value='2'/>",
    "<ValidValue name='Ten' value='16'/></DataType><DataType name='C' rootType='String' size='1'>",
    "<ValidValue name='Low' value='a'/><ValidValue name='Up' value='B'/></DataType></DataTypes>",
    "<Structures><Structure name=' Order ' type='Message' numericID='20'><Member name='A' type='K'/>",
    "<Member name='P' type='Part'/></Structure><Structure name='Part'><Member name='X' type='C'/></Structure>",
    "<Structure name='Fill' type='Message' numericID='10'/></Structures>",
    "<MessageFlows><MessageFlow><Message name='Order'/></MessageFlow>",
    "<MessageFlow><Message name='Fill'/></MessageFlow>",
    "<MessageFlow><Message name='Order'><Node name='A'><Message name='Fill'/></Node></Message></MessageFlow>",
    "</MessageFlows></Model>"]

theorem mixedOrder_isClosed : ∃ root m, Markup.root mixedOrderDocument = .ok root ∧
    Model.parse mixedOrderDocument = .ok m ∧ m.IsClosed root ∧
      m.structures.map (·.name) = ["Order", "Part", "Fill"] ∧ m.templates = [⟨10, "Fill"⟩, ⟨20, "Order"⟩] ∧
        m.types.map (·.values) =
          [[⟨"Two", "2"⟩, ⟨"Hex", "0x10"⟩, ⟨"Ten", "16"⟩], [⟨"Up", "B"⟩, ⟨"Low", "a"⟩]] ∧
        m.structures.map (fun s => s.members.map (·.counter)) = [["N", ""], [""], []] ∧
          m.flows.map (·.1) = ["Order", "Fill"] := by
  have run : ((Model.parse mixedOrderDocument).toOption.any fun m =>
      m.structures.map (·.name) == ["Order", "Part", "Fill"] &&
        m.templates == [⟨10, "Fill"⟩, ⟨20, "Order"⟩] &&
        m.types.map (·.values) ==
          [[⟨"Two", "2"⟩, ⟨"Hex", "0x10"⟩, ⟨"Ten", "16"⟩], [⟨"Up", "B"⟩, ⟨"Low", "a"⟩]] &&
        m.structures.map (fun s => s.members.map (·.counter)) == [["N", ""], [""], []] &&
          m.flows.map (·.1) == ["Order", "Fill"]) = true := by
    rw [mixedOrderDocument, Text.encodeUtf8_eq]
    decide +kernel
  obtain ⟨m, parsed, checked⟩ := (Option.any_eq_true _ _).mp run
  rw [toOption_eq_some] at parsed
  simp only [Bool.and_eq_true, beq_iff_eq] at checked
  obtain ⟨⟨⟨⟨names, templates⟩, values⟩, counters⟩, requests⟩ := checked
  obtain ⟨root, _, tree, _⟩ := Model.readFrom_of_parse parsed
  exact ⟨root, m, tree, parsed, Model.isClosed_of_parse tree parsed, names, templates, values, counters,
    requests⟩

end TradeWire

import TradeWire.Proofs.Schema.Flows

/-! A table that is read has one entry for each of its elements, in their order. -/

set_option autoImplicit false
set_option relaxedAutoImplicit false

namespace TradeWire

open Schema
open Markup (Element)

namespace Schema

/-- A data type and the element that it is read from. -/
structure ReadsType (e : Element) (t : DataType) : Prop where
  name : t.name = Text.trim (e.value "name")
  counter : t.counter = Text.trim (e.value "counter")
  size : optionalNat? (e.value "size") = some t.size
  width : t.isInteger = true → t.size ∈ integerWidths
  precision : t.precision ≤ maxPrecision
  integers : t.isChar = false → ∀ v ∈ declaredValues e, ∃ n, Literal.integer v.value = .ok n
  values : t.values = sortValues t.isChar (declaredValues e)

private theorem readsType_of_checks {e : Element} {blank : DataType} {precision : Nat}
    (size : optionalNat? (e.value "size") = some blank.size)
    (width : ¬(blank.isInteger && !integerWidths.contains blank.size) = true)
    (known : (optionalNat? (e.value "precision")).filter (· ≤ maxPrecision) = some precision)
    (integers : blank.isChar = false → ∀ v ∈ declaredValues e, isIntegerText v.value = true)
    (name : blank.name = Text.trim (e.value "name"))
    (counter : blank.counter = Text.trim (e.value "counter")) :
    ReadsType e { blank with precision, values := sortValues blank.isChar (declaredValues e) } := by
  refine ⟨name, counter, size, ?_, ?_, ?_, rfl⟩
  · intro integer
    have same : blank.isInteger = true := integer
    simpa [same] using width
  · obtain ⟨_, small⟩ := Option.filter_eq_some_iff.mp known
    simpa using small
  · intro other v declared
    have literal := integers other v declared
    unfold isIntegerText at literal
    split at literal
    · rename_i n value
      exact ⟨n, value⟩
    · cases literal

private theorem readsType_of_readType {e : Element} {t : DataType} (read : readType e = .ok t) : ReadsType e t := by
  unfold readType at read
  simp only [throw, throwThe, MonadExceptOf.throw, pure, Except.pure, bind, Except.bind] at read
  cases varies : e.value? "variableSize" with
  | none | some =>
    simp only [varies] at read
    split at read
    · exact nomatch read
    · split at read
      · split at read
        · rename_i bytes size
          split at read
          · exact nomatch read
          · rename_i width
            split at read
            · rename_i precision known
              split at read
              · split at read
                · exact nomatch read
                · rename_i checked
                  have integers : ∀ v ∈ declaredValues e, isIntegerText v.value = true := by
                    simpa using List.find?_eq_none.mp checked
                  have reads := readsType_of_checks size width known (fun _ => integers) rfl rfl
                  rw [← Except.ok.inj read]
                  simpa only using reads
              · rename_i char
                have reads := readsType_of_checks size width known
                  (fun other => absurd (by simp [other]) char) rfl rfl
                rw [← Except.ok.inj read]
                simpa only using reads
            · exact nomatch read
        · exact nomatch read
      · exact nomatch read

/-- A member and the element that it is read from. -/
structure ReadsMember (e : Element) (member : Member) : Prop where
  name : member.name = Text.trim (e.value "name")
  type : member.type = Text.trim (e.value "type")
  counter : member.counter = Text.trim (e.value "counter")

private theorem readsMember_of_readMember {owner : String} {earlier : List Member} {e : Element} {member : Member}
    (read : readMember owner earlier e = .ok member) :
    ReadsMember e member ∧ ∀ other ∈ earlier, other.name ≠ member.name := by
  unfold readMember at read
  simp only [throw, throwThe, MonadExceptOf.throw, pure, Except.pure, bind, Except.bind] at read
  split at read
  · exact nomatch read
  · split at read
    · exact nomatch read
    · rename_i fresh
      have reads : ReadsMember e member := by
        split at read
        · split at read
          · exact Except.ok.inj read ▸ ⟨rfl, rfl, rfl⟩
          · split at read
            · exact Except.ok.inj read ▸ ⟨rfl, rfl, rfl⟩
            · exact nomatch read
        · exact nomatch read
      simp only [List.any_eq_true, beq_iff_eq, not_exists, not_and] at fresh
      exact ⟨reads, reads.name ▸ fresh⟩

/-- Members that are read one after the other. -/
structure MembersRead (es : List Element) (members : List Member) : Prop where
  each : List.Forall₂ ReadsMember es members
  distinct : (members.map (·.name)).Nodup

private theorem membersRead_of_readMembers {owner : String} {before es : List Element}
    {earlier members : List Member} (good : MembersRead before earlier)
    (read : readMembers owner earlier es = .ok members) : MembersRead (before ++ es) members := by
  induction es generalizing before earlier with
  | nil =>
    cases read
    rwa [List.append_nil]
  | cons e rest ih =>
    simp only [readMembers] at read
    split at read
    · cases read
    · rename_i member here
      obtain ⟨reads, fresh⟩ := readsMember_of_readMember here
      rw [List.append_cons]
      have each := List.rel_append good.each (.cons reads .nil)
      exact ih ⟨each, nodup_map_append_singleton good.distinct fresh⟩ read

/-- A structure and the element that it is read from. -/
structure ReadsStructure (e : Element) (s : Structure) : Prop where
  name : s.name = Text.trim (e.value "name")
  named : s.name ≠ ""
  numbered : s.isMessage = true → requiredNat? (e.value "numericID") = some s.templateId ∧ 0 < s.templateId
  members : MembersRead (e.childrenNamed "Member") s.members

private theorem readsStructure_of_readStructure {e : Element} {s : Structure} (read : readStructure e = .ok s) :
    ReadsStructure e s := by
  have none : MembersRead [] [] := ⟨.nil, List.nodup_nil⟩
  unfold readStructure at read
  simp only [throw, throwThe, MonadExceptOf.throw, pure, Except.pure, bind, Except.bind] at read
  split at read
  · cases read
  · rename_i nonempty
    have named : Text.trim (e.value "name") ≠ "" := by simpa using nonempty
    split at read
    · split at read
      · rename_i id number
        split at read
        · cases read
        · rename_i nonzero
          split at read
          · cases read
          · rename_i members here
            cases read
            have positive : 0 < id := Nat.pos_of_ne_zero (by simpa using nonzero)
            exact ⟨rfl, named, fun _ => ⟨number, positive⟩, membersRead_of_readMembers none here⟩
      · cases read
    · rename_i other
      split at read
      · cases read
      · rename_i members here
        cases read
        exact ⟨rfl, named, fun message => absurd message other, membersRead_of_readMembers none here⟩

/-- Data types that are read one after the other. -/
structure TypesRead (es : List Element) (types : List DataType) : Prop where
  each : List.Forall₂ ReadsType es types
  distinct : (types.map (·.name)).Nodup

private theorem typesRead_of_readTypes {before es : List Element} {earlier types : List DataType}
    (good : TypesRead before earlier) (read : readTypes earlier es = .ok types) :
    TypesRead (before ++ es) types := by
  induction es generalizing before earlier with
  | nil =>
    cases read
    rwa [List.append_nil]
  | cons e rest ih =>
    simp only [readTypes] at read
    split at read
    · cases read
    · rename_i type here
      split at read
      · cases read
      · rename_i fresh
        simp only [List.any_eq_true, beq_iff_eq, not_exists, not_and] at fresh
        have each := List.rel_append good.each (.cons (readsType_of_readType here) .nil)
        rw [List.append_cons]
        exact ih ⟨each, nodup_map_append_singleton good.distinct fresh⟩ read

private theorem structureClash?_eq_none {types : List DataType} {earlier : List Structure} {s : Structure}
    (clash : structureClash? types earlier s = none) :
    (∀ other ∈ earlier, other.name ≠ s.name) ∧ (∀ t ∈ types, t.name ≠ s.name) ∧
      (s.isMessage = true → ∀ other ∈ earlier, other.isMessage = true → other.templateId ≠ s.templateId) := by
  unfold structureClash? at clash
  split at clash
  · cases clash
  · rename_i fresh
    split at clash
    · cases clash
    · rename_i unshadowed
      simp only [List.any_eq_true, beq_iff_eq, not_exists, not_and] at fresh unshadowed
      refine ⟨fresh, unshadowed, ?_⟩
      intro message other known also same
      rw [if_pos message, Option.map_eq_none_iff, List.find?_eq_none] at clash
      exact clash other known (by simp [also, same])

/-- Structures that are read one after the other behind the types. -/
structure StructuresRead (types : List DataType) (es : List Element) (structures : List Structure) :
    Prop where
  each : List.Forall₂ ReadsStructure es structures
  distinct : (structures.map (·.name)).Nodup
  apart : ∀ s ∈ structures, ∀ t ∈ types, t.name ≠ s.name
  numbers : ((structures.filter (·.isMessage)).map (·.templateId)).Nodup

private theorem structuresRead_of_readStructures {types : List DataType} {before es : List Element}
    {earlier structures : List Structure} (good : StructuresRead types before earlier)
    (read : readStructures types earlier es = .ok structures) :
    StructuresRead types (before ++ es) structures := by
  induction es generalizing before earlier with
  | nil =>
    cases read
    rwa [List.append_nil]
  | cons e rest ih =>
    simp only [readStructures] at read
    split at read
    · cases read
    · rename_i s here
      split at read
      · cases read
      · rename_i clash
        obtain ⟨fresh, unshadowed, unnumbered⟩ := structureClash?_eq_none clash
        have each := List.rel_append good.each (.cons (readsStructure_of_readStructure here) .nil)
        rw [List.append_cons]
        refine ih ⟨each, nodup_map_append_singleton good.distinct fresh, ?_, ?_⟩ read
        · intro other member
          rcases List.mem_append.mp member with old | new
          · exact good.apart other old
          · rw [List.mem_singleton.mp new]
            exact unshadowed
        · rw [List.filter_append]
          by_cases message : s.isMessage = true
          · rw [List.filter_cons_of_pos message, List.filter_nil]
            refine nodup_map_append_singleton good.numbers ?_
            intro other inside
            obtain ⟨listed, also⟩ := List.mem_filter.mp inside
            exact unnumbered message other listed also
          · simpa [message] using good.numbers

theorem resolveMember_eq_ok {types : List DataType} {structures : List Structure} {owner : String}
    {member resolved : Member} (done : resolveMember types structures owner member = .ok resolved) :
    (∃ t, types.find? (·.name == member.type) = some t ∧
      resolved = { member with counter := if member.counter = "" then t.counter else member.counter }) ∨
    (types.find? (·.name == member.type) = none ∧ (∃ s ∈ structures, s.name = member.type) ∧
      resolved = member) := by
  unfold resolveMember at done
  split at done
  · rename_i t found
    cases done
    refine .inl ⟨t, found, ?_⟩
    by_cases own : member.counter = ""
    · simp [own]
    · simp [own]
  · rename_i unknown
    split at done
    · rename_i known
      cases done
      simp only [List.any_eq_true, beq_iff_eq] at known
      exact .inr ⟨unknown, known, rfl⟩
    · cases done

theorem resolveStructure_eq_ok {types : List DataType} {all : List Structure} {s resolved : Structure}
    (done : resolveStructure types all s = .ok resolved) :
    ∃ members, resolved = { s with members } ∧
      List.Forall₂ (fun member new => resolveMember types all s.name member = .ok new) s.members members := by
  unfold resolveStructure at done
  obtain ⟨members, found, rfl⟩ := map_eq_ok.mp done
  exact ⟨members, rfl, forall₂_of_mapM found⟩

theorem resolveStructure_memberNames {types : List DataType} {all : List Structure} {s resolved : Structure}
    (done : resolveStructure types all s = .ok resolved) :
    resolved.members.map (·.name) = s.members.map (·.name) := by
  obtain ⟨members, rfl, related⟩ := resolveStructure_eq_ok done
  refine map_eq_of_forall₂ related ?_
  intro member new here
  rcases resolveMember_eq_ok here with ⟨_, _, rfl⟩ | ⟨_, _, rfl⟩
  · rfl
  · rfl

end Schema

/-- How a model is read from the root element of its document, with the structures as they were declared. -/
structure Model.ReadFrom (root : Element) (declared : List Structure) (m : Model) : Prop where
  types : TypesRead (root.nestedNamed "DataTypes" "DataType") m.types
  structures : StructuresRead m.types (root.nestedNamed "Structures" "Structure") declared
  resolved : List.Forall₂ (fun s new => resolveStructure m.types declared s = .ok new) declared m.structures
  templates : m.templates = templatesOf m.structures
  usages : readAllUsages [] (root.nestedNamed "ApplicationMessages" "ApplicationMessage") = .ok m.usages
  flows : FlowsRead m.structures (root.nestedNamed "MessageFlows" "MessageFlow") m.flows

theorem Model.readFrom_of_parse {document : Bytes} {m : Model} (read : Model.parse document = .ok m) :
    ∃ root declared, Markup.root document = .ok root ∧ Model.ReadFrom root declared m := by
  unfold Model.parse at read
  split at read
  · cases read
  · rename_i root found
    split at read
    · unfold Model.ofRoot at read
      obtain ⟨types, typesRead, read⟩ := bind_eq_ok.mp read
      obtain ⟨declared, declaredRead, read⟩ := bind_eq_ok.mp read
      obtain ⟨structures, resolved, read⟩ := bind_eq_ok.mp read
      obtain ⟨usages, usagesRead, read⟩ := bind_eq_ok.mp read
      obtain ⟨flows, flowsRead, read⟩ := bind_eq_ok.mp read
      cases read
      have noTypes : TypesRead [] [] := ⟨.nil, List.nodup_nil⟩
      have noStructures : StructuresRead types [] [] := ⟨.nil, List.nodup_nil, by simp, List.nodup_nil⟩
      have noFlows : FlowsRead structures [] [] := ⟨rfl, List.nodup_nil, by simp, by simp⟩
      exact ⟨root, declared, found, typesRead_of_readTypes noTypes typesRead,
        structuresRead_of_readStructures noStructures declaredRead, forall₂_of_mapM resolved, rfl, usagesRead,
        flowsRead_of_readFlows noFlows flowsRead⟩
    · cases read

end TradeWire

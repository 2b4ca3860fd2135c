import TradeWire.Proofs.Schema.Tables

/-! How the flows of a schema document are read. -/

set_option autoImplicit false
set_option relaxedAutoImplicit false

namespace TradeWire.Schema

open Markup (Element)

variable {structures : List Structure} {field : String}

theorem sizeOf_children_lt (e : Element) (rest : List Element) : sizeOf e.children < sizeOf (e :: rest) := by
  obtain ⟨name, attributes, children⟩ := e
  simp only [Element.children, List.cons.sizeOf_spec, Element.mk.sizeOf_spec]
  omega

/-- The condition of an entry below an element: it tests the field that a node above it names. -/
def conditionUnder (field : String) (e : Element) : String :=
  if field = "" then "" else field ++ " is " ++ e.value "condition"

/-- What an element of a flow gives: a node, a declared message, or nothing. -/
inductive ReadsEntry (structures : List Structure) (field : String) (e : Element) :
    Option FlowEntry → Prop where
  | node {below : List FlowEntry} (tag : e.tag = "Node")
      (read : readFlow structures (e.value "name") e.children = .ok below) :
      ReadsEntry structures field e (some (.mk true (e.value "name") (conditionUnder field e) below))
  | message {below : List FlowEntry} {s : Structure} (tag : e.tag = "Message") (declared : s ∈ structures)
      (name : s.name = e.value "name") (read : readFlow structures "" e.children = .ok below) :
      ReadsEntry structures field e (some (.mk false (e.value "name") (conditionUnder field e) below))
  | other (notNode : e.tag ≠ "Node") (notMessage : e.tag ≠ "Message") : ReadsEntry structures field e none

theorem readsEntry_of_readFlowEntry {e : Element} {answer : Option FlowEntry}
    (read : readFlowEntry structures field e = .ok answer) : ReadsEntry structures field e answer := by
  obtain ⟨name, attributes, children⟩ := e
  have condition : (if (field == "") = true then "" else
      field ++ " is " ++ (Element.mk name attributes []).value "condition") =
        conditionUnder field (.mk name attributes children) := by
    simp only [conditionUnder, beq_iff_eq]
    rfl
  unfold readFlowEntry at read
  simp only [condition] at read
  split at read
  · rename_i node
    obtain ⟨below, inner, rfl⟩ := map_eq_ok.mp read
    exact .node (beq_iff_eq.mp node) inner
  · rename_i notNode
    split at read
    · rename_i message
      split at read
      · rename_i known
        obtain ⟨s, declared, same⟩ := List.any_eq_true.mp known
        obtain ⟨below, inner, rfl⟩ := map_eq_ok.mp read
        exact .message (beq_iff_eq.mp message) declared (beq_iff_eq.mp same) inner
      · cases read
    · rename_i notMessage
      cases read
      exact .other (mt beq_iff_eq.mpr notNode) (mt beq_iff_eq.mpr notMessage)

theorem readFlow_cons_eq_ok {e : Element} {rest : List Element} {entries : List FlowEntry} :
    readFlow structures field (e :: rest) = .ok entries ↔
      ∃ answer more, readFlowEntry structures field e = .ok answer ∧
        readFlow structures field rest = .ok more ∧ entries = answer.toList ++ more := by
  rw [readFlow]
  cases readFlowEntry structures field e with
  | error fault => simp
  | ok answer =>
    cases readFlow structures field rest with
    | error fault => simp
    | ok more => simp [eq_comm]

theorem readFlow_append_eq_ok {es fs : List Element} {entries : List FlowEntry}
    (read : readFlow structures field (es ++ fs) = .ok entries) :
    ∃ first second, readFlow structures field es = .ok first ∧ readFlow structures field fs = .ok second ∧
      entries = first ++ second := by
  induction es generalizing entries with
  | nil => exact ⟨[], entries, by rw [readFlow], read, rfl⟩
  | cons e rest ih =>
    obtain ⟨answer, more, here, later, rfl⟩ := readFlow_cons_eq_ok.mp read
    obtain ⟨first, second, front, behind, rfl⟩ := ih later
    exact ⟨answer.toList ++ first, second, readFlow_cons_eq_ok.mpr ⟨answer, first, here, front, rfl⟩, behind,
      (List.append_assoc ..).symm⟩

private theorem exists_of_mem_readFlow {es : List Element} {entries : List FlowEntry}
    (read : readFlow structures field es = .ok entries) {entry : FlowEntry} (member : entry ∈ entries) :
    ∃ e ∈ es, ReadsEntry structures field e (some entry) := by
  induction es generalizing entries with
  | nil =>
    unfold readFlow at read
    cases read
    cases member
  | cons e rest ih =>
    obtain ⟨answer, more, here, later, rfl⟩ := readFlow_cons_eq_ok.mp read
    rcases List.mem_append.mp member with front | behind
    · have given : answer = some entry := Option.mem_toList.mp front
      exact ⟨e, List.mem_cons_self, readsEntry_of_readFlowEntry (given ▸ here)⟩
    · obtain ⟨other, inside, reads⟩ := ih later behind
      exact ⟨other, List.mem_cons_of_mem _ inside, reads⟩

/-- The messages of a flow are declared, at whatever depth they stand. -/
theorem exists_of_occurs {es : List Element} {entries : List FlowEntry}
    (read : readFlow structures field es = .ok entries) {entry : FlowEntry}
    (occurs : OccursIn FlowEntry.children entry entries) (message : entry.isNode = false) :
    ∃ s ∈ structures, s.name = entry.name := by
  induction occurs generalizing es field with
  | here member =>
    obtain ⟨e, _, reads⟩ := exists_of_mem_readFlow read member
    cases reads with
    | node => cases message
    | message _ declared name => exact ⟨_, declared, name⟩
  | under outer member _ ih =>
    obtain ⟨e, _, reads⟩ := exists_of_mem_readFlow read member
    cases reads with
    | node _ below => exact ih below
    | message _ _ _ below => exact ih below

def lastFlow? (es : List Element) (request : String) : Option Element :=
  (es.filter (flowRequest · == request)).getLast?

/-- Flows that are read one after the other. -/
structure FlowsRead (structures : List Structure) (es : List Element)
    (flows : List (String × List FlowEntry)) : Prop where
  requests : flows.map (·.1) = (es.map flowRequest).eraseDups
  distinct : (flows.map (·.1)).Nodup
  declared : ∀ flow ∈ flows, ∃ s ∈ structures, s.name = flow.1
  entries : ∀ flow ∈ flows, ∃ e, lastFlow? es flow.1 = some e ∧
    readFlow structures "" (flowBody e) = .ok flow.2

private theorem FlowsRead.put {es : List Element} {flows : List (String × List FlowEntry)}
    (good : FlowsRead structures es flows) {e : Element} {entries : List FlowEntry}
    (known : ∃ s ∈ structures, s.name = flowRequest e)
    (read : readFlow structures "" (flowBody e) = .ok entries) :
    FlowsRead structures (es ++ [e]) (put (flowRequest e) entries flows) := by
  have keys := map_fst_put (flowRequest e) entries flows
  refine ⟨?_, ?_, ?_, ?_⟩
  · rw [keys, List.map_append, List.map_singleton, List.eraseDups_append, good.requests]
    by_cases old : flowRequest e ∈ es.map flowRequest
    · have gone : [flowRequest e].removeAll (es.map flowRequest) = [] := by simpa [List.removeAll] using old
      rw [if_pos (List.mem_eraseDups.mpr old), gone]
      simp
    · have kept : [flowRequest e].removeAll (es.map flowRequest) = [flowRequest e] := by
        simpa [List.removeAll] using old
      rw [if_neg (mt List.mem_eraseDups.mp old), kept]
      simp [List.eraseDups_cons]
  · exact nodup_put good.distinct
  · intro flow member
    rcases mem_put good.distinct member with rfl | ⟨old, _⟩
    · exact known
    · exact good.declared flow old
  · intro flow member
    rcases mem_put good.distinct member with rfl | ⟨old, other⟩
    · exact ⟨e, by simp [lastFlow?, List.filter_append], read⟩
    · obtain ⟨last, found, readLast⟩ := good.entries flow old
      have apart : ¬flowRequest e = flow.1 := fun equal => other equal.symm
      exact ⟨last, by simpa [lastFlow?, List.filter_append, apart] using found, readLast⟩

theorem flowsRead_of_readFlows {before es : List Element} {earlier flows : List (String × List FlowEntry)}
    (good : FlowsRead structures before earlier) (read : readFlows structures earlier es = .ok flows) :
    FlowsRead structures (before ++ es) flows := by
  induction es generalizing before earlier with
  | nil =>
    cases read
    rwa [List.append_nil]
  | cons e rest ih =>
    simp only [readFlows] at read
    split at read
    · rename_i known
      split at read
      · cases read
      · rename_i entries here
        rw [List.append_cons]
        simp only [List.any_eq_true, beq_iff_eq] at known
        exact ih (good.put known here) read
    · cases read

end TradeWire.Schema

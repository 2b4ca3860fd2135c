import TradeWire.Flow.Pick
import TradeWire.Proofs.Protocol.Compiled
import TradeWire.Proofs.Schema.Flows

/-! Response trees have the messages and node elements of the document, in their order at every depth. -/

set_option autoImplicit false
set_option relaxedAutoImplicit false

namespace TradeWire.Flow

open Schema
open Markup (Element)

/-- Whether the entries below an element are tested: it is a node that names a field. -/
def IsTesting (parent : Element) : Prop := parent.tag = "Node" ∧ parent.value "name" ≠ ""

/-- The entry of an element below another one tests the field that this one names, and nothing else. -/
structure Node.IsTested (parent e : Element) (n : Node) : Prop where
  iff : n.condition?.isSome = true ↔ IsTesting parent
  text : ∀ c, n.condition? = some c →
    n.conditionText = parent.value "name" ++ " is " ++ e.value "condition" ∧ c = .parse n.conditionText

/-- The nodes for some elements that stand below another one. -/
inductive Reflects (g : Registry) : Element → List Element → List Node → Prop where
  | nil (parent : Element) : Reflects g parent [] []
  | other {parent e : Element} {es : List Element} {nodes : List Node} (notNode : e.tag ≠ "Node")
      (notMessage : e.tag ≠ "Message") (rest : Reflects g parent es nodes) : Reflects g parent (e :: es) nodes
  | field {parent e : Element} {es : List Element} {nodes below : List Node} {text : String}
      (tag : e.tag = "Node") (tested : (Node.field (e.value "name") text below).IsTested parent e)
      (children : Reflects g e e.children below) (rest : Reflects g parent es nodes) :
      Reflects g parent (e :: es) (.field (e.value "name") text below :: nodes)
  | response {parent e : Element} {es : List Element} {nodes below : List Node} {text : String} {id : Nat}
      {l : Layout} (tag : e.tag = "Message") (named : e.value "name" ≠ "") (found : g.lookup id = .ok l)
      (name : l.name = e.value "name")
      (tested : (Node.response ⟨e.value "name", id⟩ text below).IsTested parent e)
      (children : Reflects g e e.children below) (rest : Reflects g parent es nodes) :
      Reflects g parent (e :: es) (.response ⟨e.value "name", id⟩ text below :: nodes)

/-- The field that is tested below an element, as reading passes it on. -/
inductive Passes (parent : Element) : String → Prop where
  | name (node : parent.tag = "Node") : Passes parent (parent.value "name")
  | none (notNode : parent.tag ≠ "Node") : Passes parent ""

private theorem isTested_of_passes {parent e : Element} {field : String} (passes : Passes parent field) {n : Node}
    (text : n.conditionText = conditionUnder field e) : n.IsTested parent e := by
  have untested : n.conditionText = "" → n.condition? = none := by
    intro blank
    simp [Node.condition?, blank]
  cases passes with
  | none notNode =>
    have blank := untested (by rw [text, conditionUnder, if_pos rfl])
    refine ⟨?_, ?_⟩
    · simp [blank, IsTesting, notNode]
    · simp [blank]
  | name node =>
    by_cases unnamed : parent.value "name" = ""
    · have blank := untested (by rw [text, conditionUnder, if_pos unnamed])
      refine ⟨?_, ?_⟩
      · simp [blank, IsTesting, unnamed]
      · simp [blank]
    · rw [conditionUnder, if_neg unnamed] at text
      have nonempty : n.conditionText ≠ "" := by
        rw [text]
        intro empty
        simp [String.append_assoc] at empty
      have condition : n.condition? = some (.parse n.conditionText) := by
        simp [Node.condition?, nonempty]
      refine ⟨?_, ?_⟩
      · simp [condition, IsTesting, node, unnamed]
      · intro c found
        rw [condition, Option.some.injEq] at found
        exact ⟨text, found.symm⟩

/-- A registry that finds all messages of a model by their ids. -/
def Finds (g : Registry) (m : Model) : Prop :=
  ∀ s, m.Declares s → s.name ≠ "" ∧ ∃ l, g.lookup s.templateId = .ok l ∧ l.name = s.name

section Compiled

variable {m : Model} {g : Registry} {request : String}

theorem declares_of_structure? {name : String} {s : Structure}
    (found : (m.structure? name).filter (·.isMessage) = some s) : m.Declares s ∧ s.name = name := by
  obtain ⟨here, message⟩ := Option.filter_eq_some_iff.mp found
  exact ⟨⟨List.mem_of_find?_eq_some here, message⟩, by simpa using List.find?_some here⟩

private theorem nodesOfEntries_cons_eq_ok {entry : FlowEntry} {rest : List FlowEntry} {nodes : List Node} :
    nodesOfEntries m request (entry :: rest) = .ok nodes ↔
      ∃ n more, Node.ofEntry m request entry = .ok n ∧ nodesOfEntries m request rest = .ok more ∧
        nodes = n :: more := by
  rw [nodesOfEntries]
  cases Node.ofEntry m request entry with
  | error fault => simp
  | ok n =>
    cases nodesOfEntries m request rest with
    | error fault => simp
    | ok more => simp [eq_comm]

private theorem nodesOfEntries_append_eq_ok {entries others : List FlowEntry} {nodes : List Node}
    (compiled : nodesOfEntries m request (entries ++ others) = .ok nodes) :
    ∃ first second, nodesOfEntries m request entries = .ok first ∧
      nodesOfEntries m request others = .ok second ∧ nodes = first ++ second := by
  induction entries generalizing nodes with
  | nil => exact ⟨[], nodes, by rw [nodesOfEntries], compiled, rfl⟩
  | cons entry rest ih =>
    obtain ⟨n, more, here, later, rfl⟩ := nodesOfEntries_cons_eq_ok.mp compiled
    obtain ⟨first, second, front, behind, rfl⟩ := ih later
    exact ⟨n :: first, second, nodesOfEntries_cons_eq_ok.mpr ⟨n, first, here, front, rfl⟩, behind, rfl⟩

private theorem ofEntry_field_eq_ok {name text : String} {entries : List FlowEntry} {n : Node}
    (compiled : Node.ofEntry m request (.mk true name text entries) = .ok n) :
    ∃ below, nodesOfEntries m request entries = .ok below ∧ n = .field name text below := by
  unfold Node.ofEntry at compiled
  split at compiled
  · cases compiled
  · rename_i below inner
    cases compiled
    exact ⟨below, inner, rfl⟩

private theorem ofEntry_response_eq_ok {name text : String} {entries : List FlowEntry} {n : Node}
    (compiled : Node.ofEntry m request (.mk false name text entries) = .ok n) :
    ∃ s below, m.Declares s ∧ s.name = name ∧ nodesOfEntries m request entries = .ok below ∧
      n = .response ⟨name, s.templateId⟩ text below := by
  unfold Node.ofEntry at compiled
  split at compiled
  · cases compiled
  · rename_i s found
    split at compiled
    · cases compiled
    · rename_i below inner
      cases compiled
      obtain ⟨declared, same⟩ := declares_of_structure? found
      exact ⟨s, below, declared, same, inner, rfl⟩

private theorem reflects_of_compiled (finds : Finds g m) {structures : List Structure} :
    ∀ (es : List Element) {parent : Element} {field : String} {entries : List FlowEntry} {nodes : List Node},
      Passes parent field → readFlow structures field es = .ok entries →
        nodesOfEntries m request entries = .ok nodes → Reflects g parent es nodes
  | [], parent, field, entries, nodes, _, read, compiled => by
    rw [readFlow] at read
    cases read
    rw [nodesOfEntries] at compiled
    cases compiled
    exact .nil parent
  | e :: rest, parent, field, entries, nodes, passes, read, compiled => by
    have smaller := sizeOf_children_lt e rest
    obtain ⟨answer, more, here, later, rfl⟩ := readFlow_cons_eq_ok.mp read
    cases readsEntry_of_readFlowEntry here with
    | other notNode notMessage =>
      exact .other notNode notMessage (reflects_of_compiled finds rest passes later compiled)
    | node tag below =>
      obtain ⟨n, nodes, first, behind, rfl⟩ := nodesOfEntries_cons_eq_ok.mp compiled
      obtain ⟨inner, children, rfl⟩ := ofEntry_field_eq_ok first
      exact .field tag (isTested_of_passes passes rfl)
        (reflects_of_compiled finds e.children (.name tag) below children)
        (reflects_of_compiled finds rest passes later behind)
    | message tag _ _ below =>
      obtain ⟨n, nodes, first, behind, rfl⟩ := nodesOfEntries_cons_eq_ok.mp compiled
      obtain ⟨s, inner, declared, name, children, rfl⟩ := ofEntry_response_eq_ok first
      obtain ⟨named, l, found, same⟩ := finds s declared
      have notNode : e.tag ≠ "Node" := by rw [tag]; decide
      exact .response tag (name ▸ named) found (same.trans name) (isTested_of_passes passes rfl)
        (reflects_of_compiled finds e.children (.none notNode) below children)
        (reflects_of_compiled finds rest passes later behind)
termination_by es => sizeOf es

/-- The nodes for a flow: those below each of its request elements, one after the other. -/
def ReflectsFlow (g : Registry) (flow : Element) (nodes : List Node) : Prop :=
  ∃ parts, List.Forall₂ (fun (request : Element) part => Reflects g request request.children part)
    (flow.childrenNamed "Message") parts ∧ nodes = parts.flatten

private theorem exists_parts_of_compiled (finds : Finds g m) {structures : List Structure} {es : List Element}
    (messages : ∀ e ∈ es, e.tag ≠ "Node") {entries : List FlowEntry} {nodes : List Node}
    (read : readFlow structures "" (es.flatMap (·.children)) = .ok entries)
    (compiled : nodesOfEntries m request entries = .ok nodes) :
    ∃ parts, List.Forall₂ (fun (e : Element) part => Reflects g e e.children part) es parts ∧
      nodes = parts.flatten := by
  induction es generalizing entries nodes with
  | nil =>
    rw [List.flatMap_nil, readFlow] at read
    cases read
    rw [nodesOfEntries] at compiled
    cases compiled
    exact ⟨[], .nil, rfl⟩
  | cons e rest ih =>
    rw [List.flatMap_cons] at read
    obtain ⟨first, second, front, behind, rfl⟩ := readFlow_append_eq_ok read
    obtain ⟨part, more, here, later, rfl⟩ := nodesOfEntries_append_eq_ok compiled
    obtain ⟨notNode, others⟩ := List.forall_mem_cons.mp messages
    obtain ⟨parts, reflected, rfl⟩ := ih others behind later
    exact ⟨part :: parts, .cons (reflects_of_compiled finds _ (.none notNode) front here) reflected, rfl⟩

theorem reflectsFlow_of_compiled (finds : Finds g m) {structures : List Structure} {flow : Element}
    {entries : List FlowEntry} {nodes : List Node}
    (read : readFlow structures "" (flowBody flow) = .ok entries)
    (compiled : nodesOfEntries m request entries = .ok nodes) : ReflectsFlow g flow nodes := by
  refine exists_parts_of_compiled finds ?_ read compiled
  intro e member
  have tag : e.tag = "Message" := by simpa using (List.mem_filter.mp member).2
  rw [tag]
  decide

end Compiled

section Runs

variable {g : Registry}

/-- The registry has the message of a node that is a response. -/
def Node.IsSupplied (g : Registry) (n : Node) : Prop :=
  ∀ (r : Response) (text : String) (below : List Node), n = .response r text below →
    ∃ l, g.newRecord r.templateId = .ok (Record.new l) ∧ l.name = r.message

/-- The registry has the messages of all nodes, at whatever depth. -/
def Supplies (g : Registry) (nodes : List Node) : Prop :=
  ∀ n, OccursIn Node.children n nodes → n.IsSupplied g

private theorem supplies_iff {nodes : List Node} :
    Supplies g nodes ↔ ∀ n ∈ nodes, n.IsSupplied g ∧ Supplies g n.children := by
  constructor
  · intro supplies n member
    exact ⟨supplies n (.here member), fun inner inside => supplies inner (.under n member inside)⟩
  · intro each n occurs
    obtain ⟨outer, member, rfl | inside⟩ := occursIn_iff.mp occurs
    · exact (each n member).1
    · exact (each outer member).2 n inside

private theorem supplies_cons {n : Node} {rest : List Node} :
    Supplies g (n :: rest) ↔ (n.IsSupplied g ∧ Supplies g n.children) ∧ Supplies g rest := by
  rw [supplies_iff, List.forall_mem_cons, ← supplies_iff]

private theorem Reflects.supplies {parent : Element} {es : List Element} {nodes : List Node}
    (reflects : Reflects g parent es nodes) : Supplies g nodes := by
  induction reflects with
  | nil => exact supplies_iff.mpr (by simp)
  | other _ _ _ ih => exact ih
  | field _ _ _ _ below behind => exact supplies_cons.mpr ⟨⟨nofun, below⟩, behind⟩
  | response _ _ found name _ _ _ below behind =>
    refine supplies_cons.mpr ⟨⟨?_, below⟩, behind⟩
    rintro r text inner ⟨rfl⟩
    exact ⟨_, by rw [Registry.newRecord, found]; rfl, name⟩

theorem ReflectsFlow.supplies {flow : Element} {nodes : List Node} (reflects : ReflectsFlow g flow nodes) :
    Supplies g nodes := by
  obtain ⟨parts, related, rfl⟩ := reflects
  refine supplies_iff.mpr ?_
  intro n member
  obtain ⟨part, listed, inside⟩ := List.mem_flatten.mp member
  obtain ⟨e, _, reflects⟩ := exists_of_forall₂_right related listed
  exact supplies_iff.mp reflects.supplies n inside

variable {σ ε : Type}

/-- An emitter that first takes a fresh message from the registry and gives up without one. -/
def Emitter.guarded (g : Registry) (refuse : DispatchError → ε) (emit : Emitter σ ε) : Emitter σ ε :=
  fun response previous state =>
    match g.newRecord response.templateId with
    | .error fault => (state, .error (refuse fault))
    | .ok _ => emit response previous state

variable {refuse : DispatchError → ε} {emit : Emitter σ ε}

mutual

private theorem run_guarded_node (policy : Policy) : ∀ (n : Node) (previous : Record) (draws : Draws) (state : σ),
    n.IsSupplied g → Supplies g n.children →
      n.run policy (emit.guarded g refuse) previous draws state = n.run policy emit previous draws state
  | .field name text children, previous, draws, state, _, below => by
    simp only [Node.run]
    exact run_guarded_siblings policy children _ previous _ state below
  | .response message text children, previous, draws, state, own, below => by
    obtain ⟨l, fresh, _⟩ := own message text children rfl
    have same : emit.guarded g refuse message previous state = emit message previous state := by
      simp only [Emitter.guarded, fresh]
    simp only [Node.run, same]
    cases emit message previous state with
    | mk next outcome =>
      cases outcome with
      | error fault => rfl
      | ok answer => exact run_guarded_siblings policy children _ _ _ next below

private theorem run_guarded_siblings (policy : Policy) : ∀ (nodes : List Node) (selection : Selection)
    (previous : Record) (draws : Draws) (state : σ), Supplies g nodes →
      runSiblings policy (emit.guarded g refuse) nodes selection previous draws state =
        runSiblings policy emit nodes selection previous draws state
  | [], _, _, _, _, _ => by simp only [runSiblings]
  | n :: rest, selection, previous, draws, state, supplies => by
    obtain ⟨⟨own, below⟩, others⟩ := supplies_cons.mp supplies
    simp only [runSiblings]
    cases selection.takes n previous with
    | error fault => rfl
    | ok choice =>
      cases choice with
      | none => exact run_guarded_node policy n previous draws state own below
      | some selection => exact run_guarded_siblings policy rest selection previous draws state others

end

theorem run_guarded {nodes : List Node} (supplies : Supplies g nodes) (policy : Policy) (request : Record)
    (draws : Draws) (state : σ) :
    run policy (emit.guarded g refuse) nodes request draws state = run policy emit nodes request draws state :=
  run_guarded_siblings policy nodes _ request _ state supplies

end Runs

end TradeWire.Flow

import TradeWire.Proofs.Flow.Reflection
import TradeWire.Proofs.Schema.Closed

/-! A protocol has one tree for each request with a flow, under the template id of the request. -/

set_option autoImplicit false
set_option relaxedAutoImplicit false

namespace TradeWire

open Schema
open Markup (Element)

namespace Flows

variable {m : Model} {f : Flows}

private theorem treeOf_eq_ok {request : String} {entries : List FlowEntry} {tree : Nat × List Flow.Node}
    (compiled : treeOf m request entries = .ok tree) :
    ∃ s nodes, m.Declares s ∧ s.name = request ∧ Flow.nodesOfEntries m request entries = .ok nodes ∧
      tree = (s.templateId, nodes) := by
  unfold treeOf at compiled
  split at compiled
  · cases compiled
  · rename_i s found
    split at compiled
    · cases compiled
    · rename_i nodes below
      cases compiled
      obtain ⟨declared, name⟩ := Flow.declares_of_structure? found
      exact ⟨s, nodes, declared, name, below, rfl⟩

private theorem trees_of_ofModel (compiled : ofModel m = .ok f) :
    List.Forall₂ (fun flow tree => treeOf m flow.1 flow.2 = .ok tree) m.flows f.trees := by
  obtain ⟨trees, found, rfl⟩ := map_eq_ok.mp compiled
  exact forall₂_of_mapM found

private theorem eq_of_id_eq (numbered : AreNumbered m.structures) (distinct : (m.flows.map (·.1)).Nodup)
    (compiled : ofModel m = .ok f) {tree other : Nat × List Flow.Node} (first : tree ∈ f.trees)
    (second : other ∈ f.trees) (same : tree.1 = other.1) : tree = other := by
  have related := trees_of_ofModel compiled
  obtain ⟨flow, listed, here⟩ := exists_of_forall₂_right related first
  obtain ⟨flow', listed', there⟩ := exists_of_forall₂_right related second
  obtain ⟨s, nodes, declared, name, _, rfl⟩ := treeOf_eq_ok here
  obtain ⟨s', nodes', declared', name', _, rfl⟩ := treeOf_eq_ok there
  obtain rfl : s = s' := List.inj_on_of_nodup_map numbered.distinct (List.mem_filter.mpr declared)
    (List.mem_filter.mpr declared') same
  obtain rfl : flow = flow' := List.inj_on_of_nodup_map distinct listed listed' (name.symm.trans name')
  exact Except.ok.inj (here.symm.trans there)

private theorem responsesTo?_of_mem (numbered : AreNumbered m.structures) (distinct : (m.flows.map (·.1)).Nodup)
    (compiled : ofModel m = .ok f) {tree : Nat × List Flow.Node} (member : tree ∈ f.trees) :
    f.responsesTo? tree.1 = some tree.2 := by
  unfold responsesTo?
  cases found : f.trees.find? fun other => (other.1 : Int) == tree.1 with
  | none =>
    have absent := List.find?_eq_none.mp found tree member
    exact absurd (beq_self_eq_true _) absent
  | some other =>
    have same : other.1 = tree.1 := by simpa using List.find?_some found
    rw [eq_of_id_eq numbered distinct compiled (List.mem_of_find?_eq_some found) member same]
    rfl

private theorem mem_of_responsesTo? {id : Int} {nodes : List Flow.Node} (found : f.responsesTo? id = some nodes) :
    ∃ tree ∈ f.trees, (tree.1 : Int) = id ∧ tree.2 = nodes := by
  obtain ⟨tree, here, same⟩ := Option.map_eq_some_iff.mp found
  exact ⟨tree, List.mem_of_find?_eq_some here, by simpa using List.find?_some here, same⟩

end Flows

private theorem Schema.mem_of_lastFlow? {es : List Element} {request : String} {flow : Element}
    (last : lastFlow? es request = some flow) : flow ∈ es ∧ flowRequest flow = request := by
  obtain ⟨member, same⟩ := List.mem_filter.mp (List.mem_of_getLast? last)
  exact ⟨member, beq_iff_eq.mp same⟩

/-- A protocol whose trees reflect the flows of its document and name messages of its registry only. -/
structure Protocol.MirrorsFlows (root : Element) (p : Protocol) : Prop where
  requests : ∀ request flow, lastFlow? (root.nestedNamed "MessageFlows" "MessageFlow") request = some flow →
    ∃ s nodes, p.model.Declares s ∧ s.name = request ∧ p.flows.responsesTo? s.templateId = some nodes ∧
      Flow.ReflectsFlow p.registry flow nodes
  trees : ∀ id nodes, p.flows.responsesTo? id = some nodes →
    ∃ s flow, p.model.Declares s ∧ (s.templateId : Int) = id ∧
      lastFlow? (root.nestedNamed "MessageFlows" "MessageFlow") s.name = some flow ∧
        Flow.ReflectsFlow p.registry flow nodes
  supplied : ∀ id nodes, p.flows.responsesTo? id = some nodes → Flow.Supplies p.registry nodes
  runs : ∀ {σ ε : Type} (refuse : DispatchError → ε) (emit : Flow.Emitter σ ε) (policy : Flow.Policy)
    (id : Int) (nodes : List Flow.Node) (request : Record) (draws : Flow.Draws) (state : σ),
      p.flows.responsesTo? id = some nodes →
        Flow.run policy (emit.guarded p.registry refuse) nodes request draws state =
          Flow.run policy emit nodes request draws state

private theorem Protocol.finds_of_parse {document : Bytes} {p : Protocol} (parsed : Protocol.parse document = .ok p) :
    Flow.Finds p.registry p.model := by
  intro s declared
  obtain ⟨_, _, _, reads⟩ := Model.readFrom_of_parse (Protocol.parse_eq_ok parsed).1
  exact ⟨reads.name_ne_empty declared.1, Protocol.lookup_of_declares parsed declared⟩

/-- Compiled flows mirror the document, and no response of theirs is unknown to the registry. -/
theorem Protocol.mirrorsFlows_of_parse {document : Bytes} {root : Element} {p : Protocol}
    (tree : Markup.root document = .ok root) (parsed : Protocol.parse document = .ok p) :
    p.MirrorsFlows root := by
  obtain ⟨read, _, _, compiled, _⟩ := Protocol.steps_of_parse parsed
  obtain ⟨_, declared, found, reads⟩ := Model.readFrom_of_parse read
  obtain rfl := Except.ok.inj (tree.symm.trans found)
  have finds := Protocol.finds_of_parse parsed
  have related := Flows.trees_of_ofModel compiled
  have trees : ∀ id nodes, p.flows.responsesTo? id = some nodes →
      ∃ s flow, p.model.Declares s ∧ (s.templateId : Int) = id ∧
        lastFlow? (root.nestedNamed "MessageFlows" "MessageFlow") s.name = some flow ∧
          Flow.ReflectsFlow p.registry flow nodes := by
    intro id nodes responses
    obtain ⟨tree, member, rfl, rfl⟩ := Flows.mem_of_responsesTo? responses
    obtain ⟨entry, listed, here⟩ := exists_of_forall₂_right related member
    obtain ⟨s, nodes, declares, name, below, rfl⟩ := Flows.treeOf_eq_ok here
    obtain ⟨flow, last, body⟩ := reads.flows.entries entry listed
    exact ⟨s, flow, declares, rfl, name ▸ last, Flow.reflectsFlow_of_compiled finds body below⟩
  have supplied : ∀ id nodes, p.flows.responsesTo? id = some nodes → Flow.Supplies p.registry nodes := by
    intro id nodes responses
    obtain ⟨_, _, _, _, _, reflects⟩ := trees id nodes responses
    exact reflects.supplies
  refine ⟨?_, trees, supplied, ?_⟩
  · intro request flow last
    obtain ⟨member, same⟩ := mem_of_lastFlow? last
    have known : request ∈ p.model.flows.map (·.1) := by
      rw [reads.flows.requests, List.mem_eraseDups]
      exact List.mem_map.mpr ⟨flow, member, same⟩
    obtain ⟨entry, listed, rfl⟩ := List.mem_map.mp known
    obtain ⟨tree, inside, here⟩ := exists_of_forall₂_right related.flip listed
    obtain ⟨s, nodes, declares, name, below, rfl⟩ := Flows.treeOf_eq_ok here
    obtain ⟨flow', last', body⟩ := reads.flows.entries entry listed
    obtain rfl : flow = flow' := Option.some.inj (last.symm.trans last')
    exact ⟨s, nodes, declares, name,
      Flows.responsesTo?_of_mem reads.areNumbered reads.flows.distinct compiled inside,
      Flow.reflectsFlow_of_compiled finds body below⟩
  · intro σ ε refuse emit policy id nodes request draws state responses
    exact Flow.run_guarded (supplied id nodes responses) policy request draws state

/-- A schema with two flows for an order, the second one with nested nodes and a note. -/
def nestedFlowDocument : Bytes := List.flatMap Text.encodeUtf8
  ["<Model><DataTypes><DataType name='L' rootType='int' size='4'/></DataTypes>",
    "<Structures><Structure name='MessageHeaderComp'><Member name='BodyLen' type='L' cardinality='1'/>",
    "<Member name='TemplateID' type='L' cardinality='1'/></Structure>",
    "<Structure name='Order' type='Message' numericID='20'>",
    "<Member name='H' type='MessageHeaderComp' cardinality='1'/></Structure>",
    "<Structure name='Fill' type='Message' numericID='10'>",
    "<Member name='H' type='MessageHeaderComp' cardinality='1'/></Structure>",
    "</Structures><MessageFlows><MessageFlow><Message name='Order'><Message name='Fill'/></Message>",
    "</MessageFlow><MessageFlow><Message name='Order'><Node name='Kind'><Message name='Fill' condition='Two'>",
    "<Note><Message name='Lost'/></Note><Node name='Side'><Node name='' condition='Buy'>",
    "<Message name='Order' condition='Hex'/></Node></Node></Message></Node>",
    "<Message name='Fill' condition='Ten'/></Message></MessageFlow></MessageFlows></Model>"]

theorem Protocol.nestedFlow_mirrorsFlows : ∃ root p, Markup.root nestedFlowDocument = .ok root ∧
    Protocol.parse nestedFlowDocument = .ok p ∧ p.MirrorsFlows root ∧
      (p.flows.responsesTo? 20).map (·.map (·.conditionText)) = some ["", ""] ∧
        (p.flows.responsesTo? 20).map (·.map fun n => n.children.map (·.conditionText)) =
          some [["Kind is Two"], []] ∧
        (p.flows.responsesTo? 20).map (·.map fun n => n.children.map (·.children.length)) =
          some [[1], []] ∧
        (p.flows.responsesTo? 10).isNone := by
  have run : ((Protocol.parse nestedFlowDocument).toOption.any fun p =>
      (p.flows.responsesTo? 20).map (·.map (·.conditionText)) == some ["", ""] &&
        (p.flows.responsesTo? 20).map (·.map fun n => n.children.map (·.conditionText)) ==
          some [["Kind is Two"], []] &&
        (p.flows.responsesTo? 20).map (·.map fun n => n.children.map (·.children.length)) ==
          some [[1], []] &&
        (p.flows.responsesTo? 10).isNone) = true := by
    rw [nestedFlowDocument, Text.encodeUtf8_eq]
    decide +kernel
  obtain ⟨p, parsed, checked⟩ := (Option.any_eq_true _ _).mp run
  rw [toOption_eq_some] at parsed
  simp only [Bool.and_eq_true, beq_iff_eq] at checked
  obtain ⟨⟨⟨level, below⟩, deeper⟩, none⟩ := checked
  obtain ⟨root, _, tree, _⟩ := Model.readFrom_of_parse (Protocol.parse_eq_ok parsed).1
  exact ⟨root, p, tree, parsed, Protocol.mirrorsFlows_of_parse tree parsed, level, below, deeper, none⟩

end TradeWire

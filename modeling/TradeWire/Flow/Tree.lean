import TradeWire.Flow.Condition
import TradeWire.Schema.Error
import TradeWire.Schema.Model

/-! Response trees: which messages may answer a request, one level after the other. -/

set_option autoImplicit false
set_option relaxedAutoImplicit false

namespace TradeWire

open Schema

namespace Flow

structure Response where
  message : String
  templateId : Nat
deriving Repr, DecidableEq

/-- One entry of a response tree; an empty condition text says that there is none. -/
inductive Node where
  | response (message : Response) (condition : String) (children : List Node)
  | field (name : String) (condition : String) (children : List Node)
deriving Repr

namespace Node

def children : Node → List Node
  | response _ _ children => children
  | field _ _ children => children

def conditionText : Node → String
  | response _ condition _ => condition
  | field _ condition _ => condition

def condition? (n : Node) : Option Condition :=
  if n.conditionText == "" then none else some (.parse n.conditionText)

end Node

mutual

def Node.ofEntry (m : Model) (request : String) : FlowEntry → Except SchemaError Node
  | .mk true name condition children =>
    match nodesOfEntries m request children with
    | .error fault => .error fault
    | .ok nodes => .ok (.field name condition nodes)
  | .mk false name condition children =>
    match (m.structure? name).filter (·.isMessage) with
    | none => .error (.ofStructure request (.responseNotMessage name))
    | some s =>
      match nodesOfEntries m request children with
      | .error fault => .error fault
      | .ok nodes => .ok (.response ⟨name, s.templateId⟩ condition nodes)

def nodesOfEntries (m : Model) (request : String) : List FlowEntry → Except SchemaError (List Node)
  | [] => .ok []
  | entry :: rest =>
    match Node.ofEntry m request entry with
    | .error fault => .error fault
    | .ok node =>
      match nodesOfEntries m request rest with
      | .error fault => .error fault
      | .ok nodes => .ok (node :: nodes)

end

end Flow

/-- The response trees of a schema by the template id of the request, in document order. -/
structure Flows where
  trees : List (Nat × List Flow.Node)
deriving Repr

namespace Flows

/-- Compile the flow of one request. -/
def treeOf (m : Model) (request : String) (entries : List FlowEntry) :
    Except SchemaError (Nat × List Flow.Node) :=
  match (m.structure? request).filter (·.isMessage) with
  | none => .error (.ofStructure request .requestNotMessage)
  | some s =>
    match Flow.nodesOfEntries m request entries with
    | .error fault => .error fault
    | .ok nodes => .ok (s.templateId, nodes)

def ofModel (m : Model) : Except SchemaError Flows :=
  (m.flows.mapM fun (request, entries) => treeOf m request entries).map (⟨·⟩)

def responsesTo? (f : Flows) (templateId : Int) : Option (List Flow.Node) :=
  (f.trees.find? fun tree => (tree.1 : Int) == templateId).map (·.2)

end Flows

end TradeWire

import TradeWire.Flow.Tree
import TradeWire.Registry.Basic
import TradeWire.Schema.Reader

/-! A protocol: a schema with everything compiled from it. -/

set_option autoImplicit false
set_option relaxedAutoImplicit false

namespace TradeWire

/-- The names of the mandatory fields of each container, in ascending order. -/
abbrev Mandatory := List (String × List String)

/-- A schema with its layouts, registry and flows. -/
structure Protocol where
  table : Table
  registry : Registry
  flows : Flows
  mandatory : Mandatory

/-- The step of compilation that refused a schema. -/
inductive Stage where
  | schema
  | layouts
  | registry
  | flows
deriving Repr, DecidableEq

/-- A refused schema and the step that refused it. -/
structure ProtocolError where
  stage : Stage
  fault : SchemaError
deriving Repr, DecidableEq

/-- What a step puts in front of the message of its fault. -/
def Stage.lead : Stage → String
  | schema => ""
  | layouts => "compile layouts: "
  | registry => "build registry: "
  | flows => "compile flows: "

def ProtocolError.message (e : ProtocolError) : String := e.stage.lead ++ e.fault.message

def Text.isAtMost (a b : String) : Bool :=
  match compare a b with
  | .gt => false
  | _ => true

namespace Protocol

def mandatoryOf (m : Model) : Mandatory :=
  let keys := (m.usages.filter fun (_, usage) => usage == .mandatory).map (·.1)
  (keys.map (·.container)).eraseDups.map fun container =>
    (container,
      ((keys.filter (·.container == container)).map (·.field)).mergeSort Text.isAtMost)

def ofTable (t : Table) : Except ProtocolError Protocol :=
  match Registry.ofTable t with
  | .error fault => .error ⟨.registry, fault⟩
  | .ok registry =>
    match Flows.ofModel t.model with
    | .error fault => .error ⟨.flows, fault⟩
    | .ok flows => .ok ⟨t, registry, flows, mandatoryOf t.model⟩

def ofModel (m : Model) : Except ProtocolError Protocol :=
  match Table.compile m with
  | .error fault => .error ⟨.layouts, fault⟩
  | .ok table => ofTable table

/-- Read and compile a schema document. -/
def parse (document : Bytes) : Except ProtocolError Protocol :=
  match Model.parse document with
  | .error fault => .error ⟨.schema, fault⟩
  | .ok m => ofModel m

def model (p : Protocol) : Model := p.table.model

end Protocol

end TradeWire

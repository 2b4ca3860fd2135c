import TradeWire.Text.Blank
import TradeWire.Text.LowerCase

/-! The schema model: data types, structures with their members, templates, field usages and message flows. -/

set_option autoImplicit false
set_option relaxedAutoImplicit false

namespace TradeWire.Schema

/-- The root kinds of primitive data types. -/
inductive Root where
  | int
  | floatDecimal
  | string
  | data
  | counter
deriving Repr, DecidableEq

namespace Root

def word : Root → String
  | int => "int"
  | floatDecimal => "floatDecimal"
  | string => "String"
  | data => "data"
  | counter => "Counter"

def all : List Root := [int, floatDecimal, string, data, counter]

def ofWord? (s : String) : Option Root := all.find? (·.word == s)

end Root

/-- One named value of an enumerated data type, as the document writes it. -/
structure ValidValue where
  name : String
  value : String
deriving Repr, DecidableEq

structure DataType where
  name : String
  type : String
  root : Root
  size : Nat
  minValue : String
  maxValue : String
  noValue : String
  precision : Nat
  variableSize : Bool
  counter : String
  values : List ValidValue
deriving Repr, DecidableEq

namespace DataType

/-- The declared minimum admits negative numbers; a type without a minimum counts as signed. -/
def isSigned (t : DataType) : Bool :=
  t.minValue == "" || (Text.trim t.minValue).toList.head? == some '-'

def isCounter (t : DataType) : Bool := t.type == Root.counter.word || t.root == .counter

/-- A string type named like filler bytes: `Pad` and a digit from one to nine. -/
def isPadding (t : DataType) : Bool :=
  t.root == .string &&
    match t.name.toList with
    | 'P' :: 'a' :: 'd' :: c :: _ => '1' ≤ c && c ≤ '9'
    | _ => false

/-- A one-byte string that is not padding is a single character. -/
def isChar (t : DataType) : Bool := t.root == .string && t.size == 1 && !t.isPadding

def isInteger (t : DataType) : Bool :=
  match t.root with
  | .int | .floatDecimal | .counter => true
  | .string => t.size == 1 && !t.isPadding
  | .data => false

def isEnum (t : DataType) : Bool :=
  !t.values.isEmpty && (t.root == .int || (t.root == .string && t.size == 1))

def isBytes (t : DataType) : Bool :=
  !t.isInteger && !t.isPadding && (t.root == .string || t.root == .data)

end DataType

/-- One field of a structure. A cardinality of zero was not declared. -/
structure Member where
  name : String
  type : String
  cardinality : Nat
  minCardinality : Option Nat
  counter : String
deriving Repr, DecidableEq

/-- An ordered sequence of members. Messages carry a positive template id, others zero. -/
structure Structure where
  name : String
  kind : String
  templateId : Nat
  members : List Member
deriving Repr, DecidableEq

def Structure.isMessage (s : Structure) : Bool := s.kind == "Message"

/-- The components that may head a message. -/
def headerTypes : List String := ["MessageHeaderInComp", "MessageHeaderOutComp", "MessageHeaderComp"]

/-- A wire template id and its message name. -/
structure Template where
  id : Nat
  name : String
deriving Repr, DecidableEq

inductive Usage where
  | mandatory
  | conditional
  | optional
deriving Repr, DecidableEq

namespace Usage

def word : Usage → String
  | mandatory => "mandatory"
  | conditional => "conditional"
  | optional => "optional"

/-- The usage of a word, whatever its case and the blanks around it. -/
def ofWord? (s : String) : Option Usage :=
  [mandatory, conditional, optional].find? (·.word == Text.lower (Text.trim s))

end Usage

/-- A field inside a message or a group of a message. -/
structure UsageKey where
  container : String
  field : String
deriving Repr, DecidableEq

/-- One element of a message flow: a message to answer with, or a field of the message before it that
the conditions of its children test. -/
inductive FlowEntry where
  | mk (isNode : Bool) (name condition : String) (children : List FlowEntry)
deriving Repr

namespace FlowEntry

def isNode : FlowEntry → Bool
  | mk isNode _ _ _ => isNode

def name : FlowEntry → String
  | mk _ name _ _ => name

def condition : FlowEntry → String
  | mk _ _ condition _ => condition

def children : FlowEntry → List FlowEntry
  | mk _ _ _ children => children

end FlowEntry

/-- Write a value under a key: an earlier value of the key is replaced in its place. -/
def put {κ ν : Type} [BEq κ] (key : κ) (value : ν) : List (κ × ν) → List (κ × ν)
  | [] => [(key, value)]
  | entry :: rest => if entry.1 == key then (key, value) :: rest else entry :: put key value rest

end TradeWire.Schema

namespace TradeWire

/-- A schema document, read and resolved. -/
structure Model where
  name : String
  version : String
  subVersion : String
  build : String
  types : List Schema.DataType
  structures : List Schema.Structure
  /-- Messages by ascending template id. -/
  templates : List Schema.Template
  usages : List (Schema.UsageKey × Schema.Usage)
  /-- Flows by request, in the order in which requests first occur. -/
  flows : List (String × List Schema.FlowEntry)
deriving Repr

namespace Model

def type? (m : Model) (name : String) : Option Schema.DataType := m.types.find? (·.name == name)

def structure? (m : Model) (name : String) : Option Schema.Structure :=
  m.structures.find? (·.name == name)

/-- The version a document announces: its build, else version and sub-version. -/
def fullVersion (m : Model) : String :=
  if m.build != "" then m.build
  else if m.subVersion == "" then m.version
  else m.version ++ "." ++ m.subVersion

end Model

end TradeWire

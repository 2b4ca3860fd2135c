import TradeWire.Markup.Document
import TradeWire.Number.Literal
import TradeWire.Schema.Error
import TradeWire.Schema.Model

/-! Reading a schema model from a document; the first fault in the order of the document's parts is reported. -/

set_option autoImplicit false
set_option relaxedAutoImplicit false

namespace TradeWire.Schema

open Markup (Element)

/-- A non-negative number of an attribute; blank counts as zero. -/
def optionalNat? (raw : String) : Option Nat :=
  let s := Text.trim raw
  if s == "" then some 0
  else
    match Literal.decimal s with
    | .ok n => if 0 ≤ n then some n.toNat else none
    | .error _ => none

/-- A non-negative number of an attribute that must not be blank. -/
def requiredNat? (raw : String) : Option Nat :=
  match Literal.decimal (Text.trim raw) with
  | .ok n => if 0 ≤ n then some n.toNat else none
  | .error _ => none

def declaredValues (e : Element) : List ValidValue :=
  (e.childrenNamed "ValidValue").map fun v => ⟨Text.trim (v.value "name"), Text.trim (v.value "value")⟩

/-- The integer a value denotes, which orders the values of a type. -/
def valueNumber (v : ValidValue) : Int :=
  match Literal.integer v.value with
  | .ok n => n
  | .error _ => 0

/-- Put an item in front of the first one that it may precede. -/
def insertBy {α : Type} (mayPrecede : α → α → Bool) (item : α) : List α → List α
  | [] => [item]
  | first :: rest =>
    if mayPrecede item first then item :: first :: rest else first :: insertBy mayPrecede item rest

/-- Sort a list; items that may precede each other keep their order. -/
def sortBy {α : Type} (mayPrecede : α → α → Bool) (items : List α) : List α :=
  items.foldr (insertBy mayPrecede) []

/-- Values of a character type by their text, others by the integer they denote. -/
def sortValues (isChar : Bool) (values : List ValidValue) : List ValidValue :=
  if isChar then sortBy (fun a b => decide (a.value ≤ b.value)) values
  else sortBy (fun a b => decide (valueNumber a ≤ valueNumber b)) values

def isIntegerText (s : String) : Bool :=
  match Literal.integer s with
  | .ok _ => true
  | .error _ => false

/-- The widths an integer may have. -/
def integerWidths : List Nat := [1, 2, 4, 8]

def maxPrecision : Nat := 18

def readType (e : Element) : Except SchemaError DataType := do
  let name := Text.trim (e.value "name")
  if name == "" then throw (.general .unnamedType)
  let rootWord := Text.trim (e.value "rootType")
  let root ← match Root.ofWord? rootWord with
    | some root => pure root
    | none => throw (.general (.unsupportedRoot name rootWord))
  let size ← match optionalNat? (e.value "size") with
    | some size => pure size
    | none => throw (.general (.invalidSize name (e.value "size")))
  let blank : DataType :=
    { name, type := Text.trim (e.value "type"), root, size
      minValue := Text.trim (e.value "minValue")
      maxValue := Text.trim (e.value "maxValue")
      noValue := Text.trim (e.value "noValue")
      precision := 0
      variableSize := match e.value? "variableSize" with
        | some raw => !Text.spells (Text.trim raw) "false"
        | none => false
      counter := Text.trim (e.value "counter")
      values := [] }
  if blank.isInteger && !integerWidths.contains size then
    throw (.general (.unsupportedWidth name size))
  let precision ← match (optionalNat? (e.value "precision")).filter (· ≤ maxPrecision) with
    | some precision => pure precision
    | none => throw (.general (.invalidPrecision name (e.value "precision")))
  let values := declaredValues e
  if !blank.isChar then
    match values.find? fun v => !isIntegerText v.value with
    | some v => throw (.general (.valueNotInteger name v.value))
    | none => pure ()
  return { blank with precision, values := sortValues blank.isChar values }

def readMember (owner : String) (earlier : List Member) (e : Element) : Except SchemaError Member := do
  let name := Text.trim (e.value "name")
  let type := Text.trim (e.value "type")
  if name == "" || type == "" then throw ⟨owner, name, .incompleteMember⟩
  if earlier.any (·.name == name) then throw ⟨owner, name, .duplicateMember⟩
  let cardinality ← match optionalNat? (e.value "cardinality") with
    | some n => pure n
    | none => throw ⟨owner, name, .invalidCardinality (e.value "cardinality")⟩
  let minCardinality ← match e.value? "minCardinality" with
    | none => pure none
    | some raw =>
      match requiredNat? raw with
      | some n => pure (some n)
      | none => throw ⟨owner, name, .invalidMinCardinality raw⟩
  return { name, type, cardinality, minCardinality, counter := Text.trim (e.value "counter") }

/-- Read the members of a structure behind those already read. -/
def readMembers (owner : String) (earlier : List Member) : List Element → Except SchemaError (List Member)
  | [] => .ok earlier
  | e :: rest =>
    match readMember owner earlier e with
    | .error fault => .error fault
    | .ok member => readMembers owner (earlier ++ [member]) rest

def readStructure (e : Element) : Except SchemaError Structure := do
  let name := Text.trim (e.value "name")
  if name == "" then throw (.general .unnamedStructure)
  let kind := Text.trim (e.value "type")
  let templateId ←
    if kind == "Message" then
      match requiredNat? (e.value "numericID") with
      | some id =>
        if id == 0 then throw (.ofStructure name (.invalidNumericId (e.value "numericID"))) else pure id
      | none => throw (.ofStructure name (.invalidNumericId (e.value "numericID")))
    else pure 0
  let members ← readMembers name [] (e.childrenNamed "Member")
  return { name, kind, templateId, members }

/-- Read the data types behind those already read; a name occurs once. -/
def readTypes (earlier : List DataType) : List Element → Except SchemaError (List DataType)
  | [] => .ok earlier
  | e :: rest =>
    match readType e with
    | .error fault => .error fault
    | .ok type =>
      if earlier.any (·.name == type.name) then .error (.general (.duplicateType type.name))
      else readTypes (earlier ++ [type]) rest

/-- The fault of adding a structure to the types and structures before it, if there is one. -/
def structureClash? (types : List DataType) (earlier : List Structure) (s : Structure) :
    Option SchemaError :=
  if earlier.any (·.name == s.name) then some (.ofStructure s.name .duplicateStructure)
  else if types.any (·.name == s.name) then some (.ofStructure s.name .shadowsType)
  else if s.isMessage then
    (earlier.find? fun other => other.isMessage && other.templateId == s.templateId).map fun other =>
      .ofStructure s.name (.duplicateTemplate s.templateId other.name)
  else none

def readStructures (types : List DataType) (earlier : List Structure) :
    List Element → Except SchemaError (List Structure)
  | [] => .ok earlier
  | e :: rest =>
    match readStructure e with
    | .error fault => .error fault
    | .ok s =>
      match structureClash? types earlier s with
      | some fault => .error fault
      | none => readStructures types (earlier ++ [s]) rest

def templatesOf (structures : List Structure) : List Template :=
  sortBy (fun a b => decide (a.id ≤ b.id))
    ((structures.filter (·.isMessage)).map fun s => (⟨s.templateId, s.name⟩ : Template))

/-- Check the type of a member and let it inherit the counter of its data type. -/
def resolveMember (types : List DataType) (structures : List Structure) (owner : String)
    (member : Member) : Except SchemaError Member :=
  match types.find? (·.name == member.type) with
  | some type => .ok (if member.counter == "" then { member with counter := type.counter } else member)
  | none =>
    if structures.any (·.name == member.type) then .ok member
    else .error ⟨owner, member.name, .unknownType member.type⟩

def resolveStructure (types : List DataType) (structures : List Structure) (s : Structure) :
    Except SchemaError Structure :=
  (s.members.mapM (resolveMember types structures s.name)).map fun members => { s with members }

mutual

/-- Collect the usages that the children of a message or group declare. -/
def readUsages (container parent : String) (table : List (UsageKey × Usage)) :
    List Element → Except SchemaError (List (UsageKey × Usage))
  | [] => .ok table
  | e :: rest =>
    match readUsage container parent table e with
    | .error fault => .error fault
    | .ok more => readUsages container parent more rest

/-- Collect the usage of one child. A child with a usage declares it; a group without one is searched
under its name qualified by the name of its parent. -/
def readUsage (container parent : String) (table : List (UsageKey × Usage)) :
    Element → Except SchemaError (List (UsageKey × Usage))
  | .mk name attributes children =>
    let field := (Element.mk name attributes []).value "name"
    let raw := (Element.mk name attributes []).value "usage"
    if raw != "" then
      match Usage.ofWord? raw with
      | none => .error ⟨container, field, .invalidUsage raw⟩
      | some usage => .ok (put ⟨container, field⟩ usage table)
    else if name.base == "Group" then readUsages (parent ++ "." ++ field) field table children
    else .ok table

end

def readAllUsages (table : List (UsageKey × Usage)) :
    List Element → Except SchemaError (List (UsageKey × Usage))
  | [] => .ok table
  | e :: rest =>
    match readUsages (e.value "name") (e.value "name") table e.children with
    | .error fault => .error fault
    | .ok more => readAllUsages more rest

mutual

/-- Read the entries of a flow below an element. `field` is the name of the enclosing node, empty
under a message; entries below a named node carry a condition on that field. -/
def readFlow (structures : List Structure) (field : String) :
    List Element → Except SchemaError (List FlowEntry)
  | [] => .ok []
  | e :: rest =>
    match readFlowEntry structures field e with
    | .error fault => .error fault
    | .ok entry =>
      match readFlow structures field rest with
      | .error fault => .error fault
      | .ok more => .ok (entry.toList ++ more)

/-- Read one entry of a flow; an element that is neither a node nor a message is left out. -/
def readFlowEntry (structures : List Structure) (field : String) :
    Element → Except SchemaError (Option FlowEntry)
  | .mk name attributes children =>
    let entryName := (Element.mk name attributes []).value "name"
    let condition :=
      if field == "" then "" else field ++ " is " ++ (Element.mk name attributes []).value "condition"
    if name.base == "Node" then
      (readFlow structures entryName children).map fun below => some (.mk true entryName condition below)
    else if name.base == "Message" then
      if structures.any (·.name == entryName) then
        (readFlow structures "" children).map fun below => some (.mk false entryName condition below)
      else .error (.general (.unknownResponse entryName))
    else .ok none

end

/-- The request of a flow: the last name given to a message directly below it. -/
def flowRequest (flow : Element) : String :=
  (((flow.childrenNamed "Message").filterMap (·.value? "name")).getLast?).getD ""

def flowBody (flow : Element) : List Element := (flow.childrenNamed "Message").flatMap (·.children)

def readFlows (structures : List Structure) (flows : List (String × List FlowEntry)) :
    List Element → Except SchemaError (List (String × List FlowEntry))
  | [] => .ok flows
  | e :: rest =>
    let request := flowRequest e
    if structures.any (·.name == request) then
      match readFlow structures "" (flowBody e) with
      | .error fault => .error fault
      | .ok entries => readFlows structures (put request entries flows) rest
    else .error (.general (.unknownRequest (e.value "name") request))

end TradeWire.Schema

namespace TradeWire.Model

open Schema
open Markup (Element)

def rootTag : String := "Model"

def ofRoot (e : Element) : Except SchemaError Model := do
  let types ← readTypes [] (e.nestedNamed "DataTypes" "DataType")
  let declared ← readStructures types [] (e.nestedNamed "Structures" "Structure")
  let structures ← declared.mapM (resolveStructure types declared)
  let usages ← readAllUsages [] (e.nestedNamed "ApplicationMessages" "ApplicationMessage")
  let flows ← readFlows structures [] (e.nestedNamed "MessageFlows" "MessageFlow")
  return {
    name := e.value "name"
    version := e.value "version"
    subVersion := e.value "subVersion"
    build := e.value "buildNumber"
    types
    structures
    templates := templatesOf structures
    usages
    flows }

/-- Read a model from the bytes of a document. -/
def parse (document : Bytes) : Except SchemaError Model :=
  match Markup.root document with
  | .error fault => .error (.general (.malformed fault.message))
  | .ok e =>
    if e.tag == rootTag then ofRoot e
    else .error (.general (.malformed (Markup.Fault.wrongRoot e.tag).message))

end TradeWire.Model

import TradeWire.Layout.Basic

/-! The structures of a model compiled into a table of layouts. -/

set_option autoImplicit false
set_option relaxedAutoImplicit false

namespace TradeWire

open Schema

namespace Layout

/-- The names of the header fields every message relies on. -/
def bodyLenName : String := "BodyLen"

/-- The name of the header field that tells messages apart. -/
def templateIdName : String := "TemplateID"

/-- The byte fields that start out with the version of the schema. -/
def versionBytes? (m : Model) (name : String) : Option Bytes :=
  if name == "DefaultCstmApplVerID" then some (Text.encodeUtf8 m.version)
  else if name == "DefaultCstmApplVerSubID" then some (Text.encodeUtf8 m.subVersion)
  else none

/-- Mark an integer field as a counter, which starts at zero. -/
def asCounter : Field → Field
  | .primitive name type size (.int form) =>
    .primitive name type size (.int { form with governs := true, initial := 0 })
  | f => f

/-- Find the counter of a variable member among the earlier fields and mark it. -/
def linkCounter (owner : String) (member : Member) (earlier : List Field) :
    Except SchemaError (Nat × List Field) :=
  if member.counter == "" then .error ⟨owner, member.name, .noCounter⟩
  else
    match earlier.findIdx? fun f => !f.isPad && f.name == member.counter with
    | none => .error ⟨owner, member.name, .counterNotEarlier member.counter⟩
    | some i =>
      match (earlier[i]?).bind (·.intForm?) with
      | none => .error ⟨owner, member.name, .counterNotInteger member.counter⟩
      | some _ => .ok (i, earlier.modify i asCounter)

/-- Add a member of primitive type to the earlier fields. -/
def addPrimitive (m : Model) (owner : String) (member : Member) (type : DataType) (earlier : List Field) :
    Except SchemaError (List Field) := do
  let field kind := Field.primitive member.name member.type type.size kind
  if 1 < member.cardinality || member.minCardinality.isSome then
    throw ⟨owner, member.name, .repeatedPrimitive type.name⟩
  if type.isPadding then return earlier ++ [field .pad]
  else if type.isInteger then
    let noValue ← type.rawNoValue
    let symbols ← if type.isEnum then (type.symbols noValue).map some else pure none
    return earlier ++ [field (.int {
      isSigned := type.isSigned && !type.isChar
      isChar := type.isChar
      scale := if type.root == .floatDecimal then type.precision else 0
      initial := type.initialValue noValue
      noValue, symbols
      governs := false })]
  else if type.variableSize then
    let (counter, linked) ← linkCounter owner member earlier
    return linked ++ [field (.varBytes counter)]
  else return earlier ++ [field (.bytes ((versionBytes? m member.name).map (·.take type.size)))]

/-- Add a member whose element is a compiled structure to the earlier fields. -/
def addNested (owner : String) (member : Member) (element : Layout) (earlier : List Field) :
    Except SchemaError (List Field) :=
  if !element.size.isStatic then .error ⟨owner, member.name, .elementNotFixed element.name⟩
  else
    match member.minCardinality with
    | some least =>
      match linkCounter owner member earlier with
      | .error fault => .error fault
      | .ok (counter, linked) =>
        .ok (linked ++ [.nested member.name (.group counter least member.cardinality) element])
    | none =>
      if 1 < member.cardinality then
        .ok (earlier ++ [.nested member.name (.array member.cardinality) element])
      else .ok (earlier ++ [.nested member.name .once element])

/-- Tie a message to its header: the first nested field of a header type, at a known place, with
integer fields for body length and template id. -/
def linkHeader (l : Layout) : Except SchemaError HeaderLink :=
  let isHeader : Field → Bool
    | .nested _ .once element => headerTypes.contains element.name
    | _ => false
  match l.fields.findIdx? isHeader with
  | none => .error (.ofStructure l.name .noHeader)
  | some i =>
    let fieldName := ((l.fields[i]?).map (·.name)).getD ""
    if (l.fieldOffset? i).isNone then .error ⟨l.name, fieldName, .headerBehindDynamic⟩
    else
      let header := ((l.fields[i]?).bind (·.element?)).getD default
      let isInt i := ((header.fields[i]?).bind (·.intForm?)).isSome
      match header.lookup? bodyLenName, header.lookup? templateIdName with
      | some bodyLen, some templateId =>
        if isInt bodyLen && isInt templateId then .ok ⟨i, bodyLen, templateId⟩
        else .error ⟨l.name, fieldName, .headerIncomplete⟩
      | _, _ => .error ⟨l.name, fieldName, .headerIncomplete⟩

abbrev Compiled := List Layout

def Compiled.find? (compiled : Compiled) (name : String) : Option Layout :=
  List.find? (fun l : Layout => l.name == name) compiled

/-- Compile the members of structure `owner`, with `compile` for the structures among their types. -/
def compileMembers (m : Model) (compile : String → Compiled → Except SchemaError (Compiled × Layout))
    (owner : String) :
    List Member → Compiled → List Field → Except SchemaError (Compiled × List Field)
  | [], compiled, fields => .ok (compiled, fields)
  | member :: rest, compiled, fields =>
    match m.type? member.type with
    | some type =>
      match addPrimitive m owner member type fields with
      | .error fault => .error fault
      | .ok more => compileMembers m compile owner rest compiled more
    | none =>
      match compile member.type compiled with
      | .error fault => .error fault
      | .ok (compiled, element) =>
        match addNested owner member element fields with
        | .error fault => .error fault
        | .ok more => compileMembers m compile owner rest compiled more

def finish (s : Structure) (size : Size) (fields : List Field) : Except SchemaError Layout :=
  if s.isMessage then
    match linkHeader (.mk s.name none size fields) with
    | .error fault => .error fault
    | .ok header => .ok (.mk s.name (some ⟨s.templateId, header⟩) size fields)
  else .ok (.mk s.name none size fields)

/-- Compile structure `name`. Sized structures do not contain themselves, so their number is fuel
enough. -/
def compileStructure (m : Model) (sized : SizeTable) :
    Nat → String → Compiled → Except SchemaError (Compiled × Layout)
  | 0, name, _ => .error (.ofStructure name .selfReference)
  | fuel + 1, name, compiled =>
    match compiled.find? name with
    | some l => .ok (compiled, l)
    | none =>
      match m.structure? name with
      | none => .error (.general (.unknownType name))
      | some s =>
        match compileMembers m (compileStructure m sized fuel) name s.members compiled [] with
        | .error fault => .error fault
        | .ok (compiled, fields) =>
          match finish s (SizeTable.sizeOf m sized name) fields with
          | .error fault => .error fault
          | .ok l => .ok (compiled ++ [l], l)

def compileAll (m : Model) (sized : SizeTable) : List Structure → Compiled → Except SchemaError Compiled
  | [], compiled => .ok compiled
  | s :: rest, compiled =>
    match compileStructure m sized (m.structures.length + 1) s.name compiled with
    | .error fault => .error fault
    | .ok (more, _) => compileAll m sized rest more

end Layout

/-- The compiled structures of a model. -/
structure Table where
  model : Model
  sizes : SizeTable
  layouts : List Layout

namespace Table

def compile (m : Model) : Except SchemaError Table :=
  match m.sizes with
  | .error fault => .error fault
  | .ok sizes =>
    match Layout.compileAll m sizes m.structures [] with
    | .error fault => .error fault
    | .ok layouts => .ok ⟨m, sizes, layouts⟩

def layout? (t : Table) (name : String) : Option Layout := t.layouts.find? (·.name == name)

def inDocumentOrder (t : Table) : List Layout := t.model.structures.filterMap fun s => t.layout? s.name

def messages (t : Table) : List Layout := t.model.templates.filterMap fun template => t.layout? template.name

def sizeOf (t : Table) (name : String) : Size := t.sizes.sizeOf t.model name

end Table

end TradeWire

import TradeWire.Command.Files
import TradeWire.Command.Invocation
import TradeWire.Protocol.Basic
import TradeWire.Record.Dump
import TradeWire.Registry.Walk
import TradeWire.Text.Columns

/-! Carrying out commands: tables of messages and layouts, response trees, and decoded payloads. -/

set_option autoImplicit false
set_option relaxedAutoImplicit false

namespace TradeWire.Command

inductive Failure where
  | usage (fault : UsageError)
  | noSchema (path : String) (fault : PathFault)
  | noFile (path : String) (fault : PathFault)
  | notFile (path : String)
  | twoInputs
  | noInput
  | hex (fault : Text.Hex.Fault)
  | protocol (fault : ProtocolError)
  | dispatch (fault : DispatchError)
  | walk (fault : WalkError)
  | unknownStructure (reference : String)
  | notTemplateId (text : String) (fault : Literal.Fault)
  | noFlow (id : Int)
  | unsupported (command : String)
deriving Repr, DecidableEq

def Failure.message : Failure → String
  | usage fault => fault.message
  | noSchema path fault => "schema: open " ++ path ++ ": " ++ fault.message path
  | noFile path fault => fault.message path
  | notFile path => directoryMessage path
  | twoInputs => "pass either --file or hex arguments"
  | noInput => "no input: pass hex arguments or --file"
  | hex fault => "decode hex input: " ++ fault.message
  | protocol fault => fault.message
  | dispatch fault => fault.message
  | walk fault => fault.text
  | unknownStructure reference => "unknown structure " ++ Text.quote reference
  | notTemplateId text fault =>
    "template id must be an integer: strconv.Atoi: parsing " ++ Text.quote text ++ ": " ++ fault.message
  | noFlow id => "no flow for template " ++ toString id
  | unsupported command => command ++ " is not supported"

/-- What a command prints, and why it failed if it did. -/
structure Outcome where
  out : String
  failure : Option Failure
deriving Repr, DecidableEq

def loadSchema (files : Files) (path : String) : Except Failure Protocol :=
  match files path with
  | .error fault => .error (.noSchema path fault)
  | .ok .directory => .error (.protocol ⟨.schema, .general (.malformed (directoryMessage path))⟩)
  | .ok (.file document) =>
    match Protocol.parse document with
    | .error fault => .error (.protocol fault)
    | .ok p => .ok p

/-- Blanks and colons that may stand between hexadecimal digits. -/
def isSeparator (c : Char) : Bool := c == ' ' || c == ':' || c == '\n' || c == '\t'

def Input.read (i : Input) (files : Files) : Except Failure Bytes :=
  if i.file != "" then
    if !i.args.isEmpty then .error .twoInputs
    else
      match files i.file with
      | .error fault => .error (.noFile i.file fault)
      | .ok .directory => .error (.notFile i.file)
      | .ok (.file data) => .ok data
  else if i.args.isEmpty then .error .noInput
  else
    match Text.Hex.decode (String.ofList ((i.args.flatMap (·.toList)).filter (!isSeparator ·))) with
    | .error fault => .error (.hex fault)
    | .ok data => .ok data

def row (cells : List String) : String := String.intercalate "\t" cells ++ "\n"

def templatesText (p : Protocol) : String :=
  let rows := p.table.messages.map fun l =>
    row [toString l.templateId, l.name, toString l.size.fixed, toString l.size.least, toString l.size.most]
  p.model.name ++ " " ++ p.model.fullVersion ++ "\n" ++
    Text.Columns.render (String.join (row ["ID", "NAME", "FIXED", "MIN", "MAX"] :: rows))

def runRows (number : Nat) (placed : PlacedRun (Field × Nat)) : List String :=
  let offset := match placed.start with
    | some n => toString n
    | none => "dynamic"
  (Run.offsets Prod.fst 0 placed.run.members).map fun ((f, _), distance) =>
    let place := match placed.start with
      | some n => toString (Word.add n distance)
      | none => "-"
    row [toString number, placed.run.head.1.runWord, offset, toString placed.width, f.name ++ "@" ++ place,
      f.kindWord, toString f.size]

/-- The runs of a layout with the places of their fields. -/
def layoutText (l : Layout) : String :=
  let rows := l.runs.zipIdx.flatMap fun (placed, number) => runRows number placed
  l.name ++ " fixed=" ++ toString l.size.fixed ++ " min=" ++ toString l.size.least ++ " max=" ++
    toString l.size.most ++ "\n" ++
    Text.Columns.render
      (String.join (row ["RUN", "KIND", "OFFSET", "WIDTH", "FIELD", "TYPE", "SIZE"] :: rows))

/-- The structure that a name or a template id refers to. -/
def findLayout (p : Protocol) (reference : String) : Except Failure Layout :=
  match Literal.decimal reference with
  | .ok id =>
    match p.registry.lookup id with
    | .error fault => .error (.dispatch fault)
    | .ok l => .ok l
  | .error _ =>
    match p.table.layout? reference with
    | none => .error (.unknownStructure reference)
    | some l => .ok l

mutual

def nodeText (depth : Nat) : Flow.Node → String
  | .field name _ children => indent depth ++ "? " ++ name ++ "\n" ++ nodesText (depth + 1) children
  | .response message condition children =>
    let suffix := if condition == "" then "" else " [" ++ condition ++ "]"
    indent depth ++ "-> " ++ message.message ++ suffix ++ "\n" ++ nodesText (depth + 1) children

def nodesText (depth : Nat) : List Flow.Node → String
  | [] => ""
  | n :: rest => nodeText depth n ++ nodesText depth rest

end

def flowText (p : Protocol) (id : Int) (nodes : List Flow.Node) : String :=
  p.registry.nameOf id ++ " (" ++ toString id ++ ")\n" ++ nodesText 1 nodes

def flowsText (p : Protocol) : Option String → Except Failure String
  | none => .ok (String.join (p.flows.trees.map fun (id, nodes) => flowText p id nodes))
  | some text =>
    match Literal.decimal text with
    | .error fault => .error (.notTemplateId text fault)
    | .ok id =>
      match p.flows.responsesTo? id with
      | none => .error (.noFlow id)
      | some nodes => .ok (flowText p id nodes)

def decodeText (p : Protocol) (payload : Bytes) (offset : Int) : Except Failure String :=
  match p.registry.unpack payload offset with
  | .error fault => .error (.dispatch fault)
  | .ok (r, stop) =>
    .ok (r.trim.format ++ "consumed " ++ toString stop ++ " of " ++
      toString ((payload.length : Int) - offset) ++ " bytes\n")

def deliveryText (quiet : Bool) (d : Delivery) : String :=
  "@" ++ toString d.offset ++ " len=" ++ toString d.length ++ " " ++ d.record.name ++ " (" ++
    toString d.record.layout.templateId ++ ")\n" ++ (if quiet then "" else d.record.trim.format)

/-- All messages of a payload; what was read before a fault is shown. -/
def walkOutcome (p : Protocol) (payload : Bytes) (quiet : Bool) : Outcome :=
  let (messages, fault) := p.registry.walk payload
  ⟨String.join (messages.map (deliveryText quiet)) ++ toString messages.length ++ " messages\n",
    fault.map .walk⟩

def Outcome.ofText : Except Failure String → Outcome
  | .ok text => ⟨text, none⟩
  | .error fault => ⟨"", some fault⟩

/-- Carry out an action; a payload is read before the schema. -/
def Action.run (files : Files) (schema : String) : Action → Outcome
  | templates => .ofText ((loadSchema files schema).map templatesText)
  | layout reference => .ofText do
    let p ← loadSchema files schema
    let l ← findLayout p reference
    return layoutText l
  | flows template => .ofText do
    let p ← loadSchema files schema
    flowsText p template
  | decode input offset => .ofText do
    let payload ← input.read files
    let p ← loadSchema files schema
    decodeText p payload offset
  | walk input quiet =>
    match input.read files with
    | .error fault => ⟨"", some fault⟩
    | .ok payload =>
      match loadSchema files schema with
      | .error fault => ⟨"", some fault⟩
      | .ok p => walkOutcome p payload quiet

def Invocation.run (files : Files) : Invocation → Outcome
  | .help text => ⟨text, none⟩
  | .unsupported command => ⟨"", some (.unsupported command)⟩
  | .perform schema action => action.run files schema

def execute (files : Files) (args : List String) : Outcome :=
  match Invocation.ofArgs args with
  | .error fault => ⟨"", some (.usage fault)⟩
  | .ok invocation => invocation.run files

end TradeWire.Command

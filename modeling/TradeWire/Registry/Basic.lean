import TradeWire.Wire.Unpack

/-! The registry tells messages apart by the template id in their header. -/

set_option autoImplicit false
set_option relaxedAutoImplicit false

namespace TradeWire

/-- A stretch of a message: the distance from its start and the number of bytes. -/
structure Stretch where
  offset : Int
  width : Nat
deriving Repr, DecidableEq, Inhabited

namespace Stretch

def stop (s : Stretch) : Int := Word.add s.offset s.width

/-- The little-endian number in a stretch of the message that starts at `off`. -/
def read (field : String) (s : Stretch) (buf : Bytes) (off : Int) : Except DecodeError Int :=
  let start := Word.add off s.offset
  if Buffer.isShort buf.length start s.width then
    .error (truncatedAt "header" field buf.length start s.width)
  else
    (readAt "header" field buf start s.width).map fun data =>
      Word.toSigned (UInt64.ofNat (Word.ofLittleEndian data))

end Stretch

/-- The messages of a schema by template id. -/
structure Registry where
  /-- Messages by ascending template id. -/
  messages : List Layout
  bodyLenAt : Stretch
  templateIdAt : Stretch

/-- Why bytes cannot be given to a message. -/
inductive DispatchError where
  | decode (fault : DecodeError)
  | outOfRange (id least most : Int)
  | unknown (id : Int)
deriving Repr, DecidableEq

def DispatchError.message : DispatchError → String
  | decode fault => fault.message
  | outOfRange id least most =>
    "registry: template id " ++ toString id ++ " outside [" ++ toString least ++ ", " ++
      toString most ++ "]"
  | unknown id => "registry: unknown template id " ++ toString id

namespace Registry

/-- Where a message keeps its body length and template id. -/
def headerOf (l : Layout) : Stretch × Stretch :=
  (⟨l.bodyLenAt.1, l.bodyLenAt.2⟩, ⟨l.templateIdAt.1, l.templateIdAt.2⟩)

/-- Collect the messages of a table; there is one at least, and their headers agree. -/
def ofTable (t : Table) : Except SchemaError Registry :=
  match t.messages with
  | [] => .error (.general .noMessages)
  | first :: rest =>
    let (bodyLen, templateId) := headerOf first
    match rest.find? fun l => headerOf l != (bodyLen, templateId) with
    | some l =>
      let at_ := (headerOf l).2
      .error (.ofStructure l.name
        (.headersDisagree at_.offset at_.width templateId.offset templateId.width))
    | none => .ok ⟨first :: rest, bodyLen, templateId⟩

def least (r : Registry) : Nat := ((r.messages.head?).map (·.templateId)).getD 0

def most (r : Registry) : Nat := ((r.messages.getLast?).map (·.templateId)).getD 0

/-- The slots from the least template id on, one for each id up to the greatest. The messages are put into
theirs in turn. -/
def slots (r : Registry) : Int → Option Layout :=
  r.messages.foldl (fun slots l i => if i = l.templateId - r.least then some l else slots i) fun _ => none

def lookup (r : Registry) (id : Int) : Except DispatchError Layout :=
  if id < r.least ∨ r.most < id then .error (.outOfRange id r.least r.most)
  else
    match r.slots (id - r.least) with
    | some l => .ok l
    | none => .error (.unknown id)

def lookupName? (r : Registry) (name : String) : Option Layout := r.messages.find? (·.name == name)

def unknownNameMessage (name : String) : String := "registry: unknown message name: " ++ name

/-- The name of a template id, empty for an unknown one. -/
def nameOf (r : Registry) (id : Int) : String :=
  match r.lookup id with
  | .ok l => l.name
  | .error _ => ""

def newRecord (r : Registry) (id : Int) : Except DispatchError Record := (r.lookup id).map Record.new

/-- The template id of the message that starts at `off`. -/
def templateId (r : Registry) (buf : Bytes) (off : Int) : Except DecodeError Int :=
  r.templateIdAt.read Layout.templateIdName buf off

/-- The body length of the message that starts at `off`. -/
def bodyLen (r : Registry) (buf : Bytes) (off : Int) : Except DecodeError Int :=
  r.bodyLenAt.read Layout.bodyLenName buf off

/-- Read the message that starts at `off`, whichever it is. -/
def unpack (r : Registry) (buf : Bytes) (off : Int) : Except DispatchError (Record × Int) :=
  match r.templateId buf off with
  | .error fault => .error (.decode fault)
  | .ok id =>
    match r.lookup id with
    | .error fault => .error fault
    | .ok l =>
      match Record.unpack l buf off with
      | .error fault => .error (.decode fault)
      | .ok answer => .ok answer

end Registry

end TradeWire

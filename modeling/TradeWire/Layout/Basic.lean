import TradeWire.Layout.Run
import TradeWire.Layout.Size
import TradeWire.Layout.Symbols

/-! Compiled layouts: the tree of the fields of a structure, with its runs and static offsets. -/

set_option autoImplicit false
set_option relaxedAutoImplicit false

namespace TradeWire

/-- How an integer field reads and shows its value. -/
structure IntForm where
  isSigned : Bool
  isChar : Bool
  /-- Decimal places of a scaled value. -/
  scale : Nat
  /-- What a fresh record holds. -/
  initial : UInt64
  noValue : Option UInt64
  symbols : Option Symbols
  /-- A later sibling takes its length from this field. -/
  governs : Bool
deriving Repr, DecidableEq

/-- The kinds of primitive fields. A variable byte string names the position of its counter. -/
inductive Primitive where
  | int (form : IntForm)
  | pad
  | bytes (initial : Option Bytes)
  | varBytes (counter : Nat)
deriving Repr, DecidableEq

/-- How often a field holds its element: once, a fixed number of times, or as often as a counter
between two bounds says. -/
inductive Repetition where
  | once
  | array (count : Nat)
  | group (counter least most : Nat)
deriving Repr, DecidableEq

/-- Where a message finds its header, and the header its length and template id fields. -/
structure HeaderLink where
  field : Nat
  bodyLen : Nat
  templateId : Nat
deriving Repr, DecidableEq

structure MessageInfo where
  templateId : Nat
  header : HeaderLink
deriving Repr, DecidableEq

mutual

inductive Field where
  | primitive (name type : String) (size : Nat) (kind : Primitive)
  | nested (name : String) (repetition : Repetition) (element : Layout)

inductive Layout where
  | mk (name : String) (message : Option MessageInfo) (size : Size) (fields : List Field)

end

namespace Layout

def name : Layout → String
  | mk name _ _ _ => name

def message : Layout → Option MessageInfo
  | mk _ message _ _ => message

def size : Layout → Size
  | mk _ _ size _ => size

def fields : Layout → List Field
  | mk _ _ _ fields => fields

def isMessage (l : Layout) : Bool := l.message.isSome

/-- The template id of a message, zero for a component. -/
def templateId (l : Layout) : Nat := (l.message.map (·.templateId)).getD 0

instance : Inhabited Layout := ⟨mk "" none default []⟩

end Layout

namespace Field

def name : Field → String
  | primitive name _ _ _ => name
  | nested name _ _ => name

def type : Field → String
  | primitive _ type _ _ => type
  | nested _ _ element => element.name

/-- The width of a primitive field, the largest length of a variable byte string, or the size of one
element. -/
def size : Field → Int
  | primitive _ _ size _ => size
  | nested _ _ element => element.size.fixed

def element? : Field → Option Layout
  | primitive .. => none
  | nested _ _ element => some element

def intForm? : Field → Option IntForm
  | primitive _ _ _ (.int form) => some form
  | _ => none

def isPad : Field → Bool
  | primitive _ _ _ .pad => true
  | _ => false

/-- Integers, padding and fixed byte strings share a block with their neighbours. -/
def isElementary : Field → Bool
  | primitive _ _ _ (.varBytes _) => false
  | primitive .. => true
  | nested .. => false

def isDynamic : Field → Bool
  | primitive _ _ _ (.varBytes _) => true
  | nested _ (.group ..) _ => true
  | _ => false

/-- The position of the counter that governs the field. -/
def counter? : Field → Option Nat
  | primitive _ _ _ (.varBytes counter) => some counter
  | nested _ (.group counter _ _) _ => some counter
  | _ => none

/-- The bytes the field takes whatever its value; none for a dynamic field. -/
def width : Field → Int
  | primitive _ _ _ (.varBytes _) => 0
  | primitive _ _ size _ => size
  | nested _ .once element => element.size.fixed
  | nested _ (.array count) element => Word.mul element.size.fixed count
  | nested _ (.group ..) _ => 0

def kindWord : Field → String
  | primitive _ _ _ (.int _) => "int"
  | primitive _ _ _ .pad => "pad"
  | primitive _ _ _ (.bytes _) => "bytes"
  | primitive _ _ _ (.varBytes _) => "varbytes"
  | nested _ .once _ => "struct"
  | nested _ (.array _) _ => "array"
  | nested _ (.group ..) _ => "group"

/-- The word for the kind of the run that holds the field. -/
def runWord (f : Field) : String := if f.isElementary then "elementary" else f.kindWord

def countBounds : Field → Nat × Nat
  | nested _ (.array count) _ => (count, count)
  | nested _ (.group _ least most) _ => (least, most)
  | _ => (0, 0)

end Field

/-- A run with its width and, as long as no dynamic run precedes it, its start. The width of a group
is that of one element. -/
structure PlacedRun (α : Type) where
  run : Run α
  width : Int
  start : Option Int
deriving Repr

namespace Run

variable {α : Type}

def totalWidth (field : α → Field) (members : List α) : Int :=
  members.foldl (fun sum a => Word.add sum (field a).width) 0

def width (field : α → Field) : Run α → Int
  | block first rest => totalWidth field (first :: rest)
  | single member =>
    match field member with
    | .nested _ (.group ..) element => element.size.fixed
    | f => Word.add 0 f.width

def isDynamic (field : α → Field) (r : Run α) : Bool := (field r.head).isDynamic

/-- Give every run its place behind the ones before it. -/
def place (field : α → Field) : Option Int → List (Run α) → List (PlacedRun α)
  | _, [] => []
  | start, run :: rest =>
    let width := run.width field
    let next := if run.isDynamic field then none else start.map (Word.add · width)
    ⟨run, width, start⟩ :: place field next rest

/-- The members of a run with their distances from its start. -/
def offsets (field : α → Field) : Int → List α → List (α × Int)
  | _, [] => []
  | offset, a :: rest => (a, offset) :: offsets field (Word.add offset (field a).width) rest

end Run

def placedRuns {α : Type} (field : α → Field) (members : List α) : List (PlacedRun α) :=
  Run.place field (some 0) (Run.partition (fun a => (field a).isElementary) members)

/-- Where a field stands: the number of its run, its distance from the start of the run, and its
distance from the start of the structure where that is known. -/
structure Placement where
  run : Nat
  offset : Int
  start : Option Int
deriving Repr, DecidableEq

namespace Layout

/-- The runs of a layout; members are the positions of fields. -/
def runs (l : Layout) : List (PlacedRun (Field × Nat)) := placedRuns Prod.fst l.fields.zipIdx

def placements (l : Layout) : List Placement :=
  l.runs.zipIdx.flatMap fun (placed, number) =>
    (Run.offsets Prod.fst 0 placed.run.members).map fun (_, offset) =>
      ⟨number, offset, placed.start.map (Word.add · offset)⟩

/-- The distance of a field from the start of the structure, when no earlier content is dynamic. -/
def fieldOffset? (l : Layout) (i : Nat) : Option Int := (l.placements[i]?).bind (·.start)

/-- The position of the named field; padding has no name to go by. -/
def lookup? (l : Layout) (name : String) : Option Nat :=
  l.fields.findIdx? fun f => !f.isPad && f.name == name

/-- The body length of a fresh message. -/
def initialBodyLen (l : Layout) : Int := if l.size.fixed != 0 then l.size.fixed else l.size.least

def header? (l : Layout) : Option Layout :=
  l.message.bind fun info => (l.fields[info.header.field]?).bind (·.element?)

/-- The offset and width of a field of the header, from the start of the message. -/
def headerFieldAt (l : Layout) (link : HeaderLink) (i : Nat) : Int × Nat :=
  match l.header? with
  | none => (0, 0)
  | some header =>
    let base := (l.fieldOffset? link.field).getD 0
    let offset := (header.fieldOffset? i).getD 0
    (Word.add base offset, ((header.fields[i]?).map fun f => f.size.toNat).getD 0)

def bodyLenAt (l : Layout) : Int × Nat :=
  match l.message with
  | none => (0, 0)
  | some info => l.headerFieldAt info.header info.header.bodyLen

def templateIdAt (l : Layout) : Int × Nat :=
  match l.message with
  | none => (0, 0)
  | some info => l.headerFieldAt info.header info.header.templateId

end Layout

end TradeWire

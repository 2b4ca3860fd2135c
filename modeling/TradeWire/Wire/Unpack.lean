import TradeWire.Record.Basic
import TradeWire.Wire.Buffer

/-! Reading records from buffers, one run after the other. -/

set_option autoImplicit false
set_option relaxedAutoImplicit false

namespace TradeWire

namespace DecodeError

inductive Cause where
  | truncated (need held : Int)
  | lengthAboveBound (length : UInt64) (most : Nat)
  | countAboveBound (count : UInt64) (most : Nat)
  /-- A byte outside the buffer would be read. -/
  | outside
deriving Repr, DecidableEq

def counterRange : String := "codec: counter exceeds declared bounds: "

def Cause.reason : Cause → String
  | truncated need held => "need " ++ toString need ++ " bytes, have " ++ toString held
  | lengthAboveBound length most =>
    counterRange ++ "length " ++ toString length.toNat ++ ", maximum " ++ toString most
  | countAboveBound count most =>
    counterRange ++ "count " ++ toString count.toNat ++ ", maximum " ++ toString most
  | outside => "read outside the buffer"

end DecodeError

structure DecodeError where
  owner : String
  field : String
  offset : Int
  cause : DecodeError.Cause
deriving Repr, DecidableEq

def DecodeError.message (e : DecodeError) : String :=
  "codec: unpack " ++ e.owner ++ "." ++ e.field ++ " at offset " ++ toString e.offset ++ ": " ++
    e.cause.reason

/-- Reading from a position of a buffer: what was read and the position behind. -/
abbrev Reader (α : Type) := Bytes → Int → Except DecodeError (α × Int)

def truncatedAt (owner field : String) (length : Nat) (start need : Int) : DecodeError :=
  ⟨owner, field, start, .truncated need (Buffer.remaining length start)⟩

/-- Read the bytes of a stretch that the caller has checked. -/
def readAt (owner field : String) (buf : Bytes) (start count : Int) : Except DecodeError Bytes :=
  match Buffer.slice? buf start count with
  | some data => .ok data
  | none => .error ⟨owner, field, start, .outside⟩

/-- The slot of an integer field that holds these bytes. -/
def intSlot (size : Nat) (form : IntForm) (data : Bytes) : Slot :=
  let plain := UInt64.ofNat (Word.ofLittleEndian data)
  let raw := if form.isSigned then Word.signExtend plain size else plain
  .int raw ((form.symbols.bind (·.name? raw)).getD "")

def readElementary (owner : String) (buf : Bytes) (start : Int) : Field → Except DecodeError Slot
  | .primitive name _ size (.int form) => (readAt owner name buf start size).map (intSlot size form)
  | .primitive name _ size (.bytes _) => (readAt owner name buf start size).map .bytes
  | _ => .ok .pad

/-- A field with, for a nested field, the way to read a number of elements. -/
structure ReadPart where
  field : Field
  read : Nat → Reader Slot

/-- Read the members of a block, each at its distance from the start. -/
def readBlock (owner : String) (buf : Bytes) (start : Int) :
    List (ReadPart × Int) → Except DecodeError (List Slot)
  | [] => .ok []
  | (part, offset) :: rest =>
    match readElementary owner buf (Word.add start offset) part.field with
    | .error fault => .error fault
    | .ok slot =>
      match readBlock owner buf start rest with
      | .error fault => .error fault
      | .ok slots => .ok (slot :: slots)

def readInTurn {α : Type} (read : Reader α) : Nat → Reader (List α)
  | 0, _, pos => .ok ([], pos)
  | count + 1, buf, pos =>
    match read buf pos with
    | .error fault => .error fault
    | .ok (item, next) =>
      match readInTurn read count buf next with
      | .error fault => .error fault
      | .ok (items, stop) => .ok (item :: items, stop)

/-- Read a run at its start; `earlier` are the slots read before it. -/
def readRun (owner : String) (earlier : List Slot) (placed : PlacedRun ReadPart) : Reader (List Slot) :=
  fun buf start =>
    match placed.run with
    | .block first rest =>
      if Buffer.isShort buf.length start placed.width then
        .error (truncatedAt owner first.field.name buf.length start placed.width)
      else
        (readBlock owner buf start (Run.offsets ReadPart.field 0 (first :: rest))).map fun slots =>
          (slots, Word.add start placed.width)
    | .single part =>
      match part.field with
      | .primitive name _ size (.varBytes counter) =>
        let length := rawAt earlier counter
        if size < length.toNat then .error ⟨owner, name, start, .lengthAboveBound length size⟩
        else if Buffer.isShort buf.length start length.toNat then
          .error (truncatedAt owner name buf.length start length.toNat)
        else
          (readAt owner name buf start length.toNat).map fun data =>
            ([.bytes data], Word.add start length.toNat)
      | .nested name (.group counter _ most) _ =>
        let count := rawAt earlier counter
        if most < count.toNat then .error ⟨owner, name, start, .countAboveBound count most⟩
        else (part.read count.toNat buf start).map fun (slot, stop) => ([slot], stop)
      | .nested _ (.array count) _ => (part.read count buf start).map fun (slot, stop) => ([slot], stop)
      | _ => (part.read 1 buf start).map fun (slot, stop) => ([slot], stop)

/-- Read runs in turn. `base` is where the structure starts and the last position where the run before
ended. -/
def readRuns (owner : String) (base : Int) (earlier : List Slot) :
    List (PlacedRun ReadPart) → Reader (List Slot)
  | [], _, pos => .ok (earlier, pos)
  | placed :: rest, buf, pos =>
    let start := match placed.start with
      | some offset => Word.add base offset
      | none => pos
    match readRun owner earlier placed buf start with
    | .error fault => .error fault
    | .ok (slots, pos) => readRuns owner base (earlier ++ slots) rest buf pos

mutual

def Layout.read : Layout → Reader (List Slot)
  | .mk name _ _ fields => fun buf off =>
    readRuns name off [] (placedRuns ReadPart.field (readParts fields)) buf off

def readParts : List Field → List ReadPart
  | [] => []
  | f :: fs => ⟨f, f.readNested⟩ :: readParts fs

def Field.readNested : Field → Nat → Reader Slot
  | .nested _ .once element, _ => fun buf pos =>
    (element.read buf pos).map fun (slots, stop) => (.struct slots, stop)
  | .nested _ _ element, count => fun buf pos =>
    (readInTurn element.read count buf pos).map fun (items, stop) => (.elems items, stop)
  | .primitive .., _ => fun _ pos => .ok (.pad, pos)

end

/-- Read a record of a layout from `off` on; the answer holds the position behind its last byte. -/
def Record.unpack (l : Layout) (buf : Bytes) (off : Int) : Except DecodeError (Record × Int) :=
  (l.read buf off).map fun (slots, stop) => (⟨l, slots⟩, stop)

end TradeWire

import TradeWire.Record.Basic
import TradeWire.Wire.Buffer

/-! Writing records into buffers, one run after the other. -/

set_option autoImplicit false
set_option relaxedAutoImplicit false

namespace TradeWire

namespace PackError

/-- Why a record cannot be written as it is. -/
inductive Cause where
  | truncated (need start : Int) (held : Nat)
  | arrayCount (holds wants : Nat)
  | counterAboveLength (counter : UInt64) (most : Nat)
  | bytesAboveCounter (holds : Nat) (counter : UInt64)
  | counterOutside (counter : UInt64) (least most : Nat)
  | groupCount (holds : Nat) (counter : UInt64)
  | doesNotFit (raw : UInt64) (size : Nat)
  | bytesAboveSize (holds size : Nat)
  /-- A byte outside the buffer would be written. -/
  | outside
deriving Repr, DecidableEq

def Cause.reason : Cause → String
  | truncated need start held =>
    "need " ++ toString need ++ " bytes at offset " ++ toString start ++ ", buffer holds " ++ toString held
  | arrayCount holds wants =>
    "array holds " ++ toString holds ++ " elements, want " ++ toString wants
  | counterAboveLength counter most =>
    "counter " ++ toString counter.toNat ++ " exceeds maximum length " ++ toString most
  | bytesAboveCounter holds counter =>
    "value holds " ++ toString holds ++ " bytes, counter says " ++ toString counter.toNat
  | counterOutside counter least most =>
    "counter " ++ toString counter.toNat ++ " outside [" ++ toString least ++ ", " ++ toString most ++ "]"
  | groupCount holds counter =>
    "group holds " ++ toString holds ++ " elements, counter says " ++ toString counter.toNat
  | doesNotFit raw size =>
    "value 0x" ++ Text.Hex.ofNat raw.toNat ++ " does not fit " ++ toString size ++ " bytes"
  | bytesAboveSize holds size =>
    "value holds " ++ toString holds ++ " bytes, field is " ++ toString size
  | outside => "write outside the buffer"

end PackError

/-- A record that cannot be written: the structure and field concerned, and the cause. -/
structure PackError where
  owner : String
  field : String
  cause : PackError.Cause
deriving Repr, DecidableEq

def PackError.message (e : PackError) : String :=
  "codec: pack " ++ e.owner ++ "." ++ e.field ++ ": " ++ e.cause.reason

/-- Writing into a buffer from a position on: the changed buffer and the position behind. -/
abbrev Writer := Bytes → Int → Except PackError (Bytes × Int)

def writeInTurn : List Writer → Writer
  | [], buf, pos => .ok (buf, pos)
  | write :: rest, buf, pos =>
    match write buf pos with
    | .error fault => .error fault
    | .ok (buf, pos) => writeInTurn rest buf pos

/-- A field with its slot and, for a nested field, the way to write what the slot holds. -/
structure WritePart where
  field : Field
  slot : Slot
  write : Writer

/-- Write bytes at a position that the caller has checked. -/
def writeAt (owner field : String) (buf : Bytes) (start : Int) (data : Bytes) : Except PackError Bytes :=
  match Buffer.patch? buf start data with
  | some changed => .ok changed
  | none => .error ⟨owner, field, .outside⟩

def elementaryBytes (owner : String) : Field → Slot → Except PackError Bytes
  | .primitive name _ size (.int form), s =>
    if Word.fits s.raw size form.isSigned then .ok (Word.littleEndian size s.raw.toNat)
    else .error ⟨owner, name, .doesNotFit s.raw size⟩
  | .primitive name _ size (.bytes _), s =>
    if s.data.length ≤ size then .ok (Buffer.zeroFilled size s.data)
    else .error ⟨owner, name, .bytesAboveSize s.data.length size⟩
  | .primitive _ _ size .pad, _ => .ok (List.replicate size 0)
  | _, _ => .ok []

/-- Write the members of a block, each at its distance from the start. -/
def writeBlock (owner : String) (start : Int) : List (WritePart × Int) → Bytes → Except PackError Bytes
  | [], buf => .ok buf
  | (part, offset) :: rest, buf =>
    match elementaryBytes owner part.field part.slot with
    | .error fault => .error fault
    | .ok data =>
      match writeAt owner part.field.name buf (Word.add start offset) data with
      | .error fault => .error fault
      | .ok buf => writeBlock owner start rest buf

/-- Write a variable byte string: as many bytes as its counter says, the value and zeros. -/
def writeVarBytes (owner name : String) (size : Nat) (counter : UInt64) (data : Bytes) : Writer :=
  fun buf start =>
    if size < counter.toNat then .error ⟨owner, name, .counterAboveLength counter size⟩
    else if counter.toNat < data.length then .error ⟨owner, name, .bytesAboveCounter data.length counter⟩
    else if Buffer.isShort buf.length start counter.toNat then
      .error ⟨owner, name, .truncated counter.toNat start buf.length⟩
    else
      (writeAt owner name buf start (Buffer.zeroFilled counter.toNat data)).map fun buf =>
        (buf, Word.add start counter.toNat)

def writeRun (owner : String) (slots : List Slot) (placed : PlacedRun WritePart) : Writer :=
  fun buf start =>
    match placed.run with
    | .block first rest =>
      if Buffer.isShort buf.length start placed.width then
        .error ⟨owner, first.field.name, .truncated placed.width start buf.length⟩
      else
        (writeBlock owner start (Run.offsets WritePart.field 0 (first :: rest)) buf).map fun buf =>
          (buf, Word.add start placed.width)
    | .single part =>
      match part.field with
      | .primitive name _ size (.varBytes counter) =>
        writeVarBytes owner name size (rawAt slots counter) part.slot.data buf start
      | .nested name (.array count) _ =>
        if part.slot.count != count then .error ⟨owner, name, .arrayCount part.slot.count count⟩
        else part.write buf start
      | .nested name (.group counter least most) _ =>
        let number := rawAt slots counter
        if most < number.toNat || number.toNat < least then
          .error ⟨owner, name, .counterOutside number least most⟩
        else if part.slot.count != number.toNat then
          .error ⟨owner, name, .groupCount part.slot.count number⟩
        else part.write buf start
      | _ => part.write buf start

/-- Write runs in turn. `base` is where the structure starts and `pos` where the run before ended. -/
def writeRuns (owner : String) (slots : List Slot) (base : Int) : List (PlacedRun WritePart) → Writer
  | [], buf, pos => .ok (buf, pos)
  | placed :: rest, buf, pos =>
    let start := match placed.start with
      | some offset => Word.add base offset
      | none => pos
    match writeRun owner slots placed buf start with
    | .error fault => .error fault
    | .ok (buf, pos) => writeRuns owner slots base rest buf pos

mutual

def Layout.write : Layout → List Slot → Writer
  | .mk name _ _ fields, slots => fun buf off =>
    writeRuns name slots off (placedRuns WritePart.field (writeParts fields slots)) buf off

def writeParts : List Field → List Slot → List WritePart
  | f :: fs, s :: ss => ⟨f, s, f.writeNested s⟩ :: writeParts fs ss
  | _, _ => []

def Field.writeNested : Field → Slot → Writer
  | .nested _ _ element, .struct slots => element.write slots
  | .nested _ _ element, .elems items => writeInTurn (items.map element.write)
  | _, _ => fun buf pos => .ok (buf, pos)

end

namespace Record

/-- Write the record into a buffer from `off` on; the answer is the changed buffer and the position
behind the last byte. -/
def packInto (r : Record) (buf : Bytes) (off : Int) : Except PackError (Bytes × Int) :=
  r.layout.write r.slots buf off

/-- The bytes of the record, in a buffer made for its encoded size. -/
def pack (r : Record) : Except PackError Bytes :=
  match r.packInto (List.replicate r.encodedSize.toNat 0) 0 with
  | .error fault => .error fault
  | .ok (buf, stop) => .ok (buf.take stop.toNat)

end Record

end TradeWire

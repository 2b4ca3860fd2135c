import TradeWire.Protocol.Frame
import TradeWire.Record.Access
import TradeWire.Wire.Pack

/-! Messages on their way out: sequence numbers, fields taken over from the message before, and frames. -/

set_option autoImplicit false
set_option relaxedAutoImplicit false

namespace TradeWire

inductive SendError where
  | pack (fault : PackError)
  | frame (fault : Frame.Fault)
deriving Repr, DecidableEq

def SendError.message : SendError → String
  | pack fault => fault.message
  | frame fault => fault.message

namespace Record

def sequenceName : String := "MsgSeqNum"

def sendingTimeName : String := "SendingTime"

/-- The structure behind the message header, which carries the sequence number and the sending time. -/
def sessionHeader? (r : Record) : Option (String × Layout) :=
  match r.layout.fields with
  | _ :: .nested name .once element :: _ => some (name, element)
  | _ => none

/-- The path of a field in the structure behind the message header. -/
def sessionPath (header field : String) : String := header ++ "." ++ field

/-- Stamp a sequence number on a message that carries one. -/
def stampSequence? (r : Record) (number : UInt64) : Option Record :=
  match r.sessionHeader? with
  | none => none
  | some (header, element) =>
    if (element.lookup? sequenceName).isNone then none
    else
      match r.setUint (sessionPath header sequenceName) number with
      | .ok stamped => some stamped
      | .error _ => none

/-- The sequence number of a message, where it carries one. -/
def sequence? (r : Record) : Option UInt64 :=
  match r.sessionHeader? with
  | none => none
  | some (header, _) =>
    match r.uint (sessionPath header sequenceName) with
    | .ok number => some number
    | .error _ => none

/-- Stamp the sending time on a message that carries one. -/
def stampTime (r : Record) (time : UInt64) : Record :=
  match r.sessionHeader? with
  | none => r
  | some (header, element) =>
    if (element.lookup? sendingTimeName).isNone then r
    else
      match r.setUint (sessionPath header sendingTimeName) time with
      | .ok stamped => stamped
      | .error _ => r

/-- Whether a field takes over the value of another: both are integers or fixed byte strings of one
size, neither is a counter, and the signs agree. -/
def takesOver : Field → Field → Bool
  | .primitive _ _ size (.int form), .primitive _ _ size' (.int form') =>
    size == size' && form.isSigned == form'.isSigned && !form.governs && !form'.governs
  | .primitive _ _ size (.bytes _), .primitive _ _ size' (.bytes _) => size == size'
  | _, _ => false

/-- Set a field to the value of a slot; what cannot be set stays. -/
def putValue (r : Record) (f : Field) (slot : Slot) : Record :=
  let changed := match f with
    | .primitive name _ _ (.int form) =>
      if form.isSigned then r.setInt name (Word.toSigned slot.raw) else r.setUint name slot.raw
    | f => r.setBytes f.name slot.data
  match changed with
  | .ok r => r
  | .error _ => r

/-- Take over the fields that a message shares with another one by name and shape. -/
def echo (r source : Record) : Record :=
  r.layout.fields.foldl
    (fun r f =>
      match source.locate f.name with
      | .ok (_, g, slot) => if takesOver f g then r.putValue f slot else r
      | .error _ => r)
    r

/-- Make a message ready to be sent: its counters and its body length tell the truth. -/
def settled (r : Record) : Record := r.syncCounters.updateLength

/-- The first `size` bytes of a pooled buffer, with whatever they still hold; fresh zeros when the
pooled buffer is too small. -/
def lentBuffer (pooled : Bytes) (size : Nat) : Bytes :=
  if pooled.length < size then List.replicate size 0 else pooled.take size

def framed (limit : Nat) : Except PackError Bytes → Except SendError Bytes
  | .error fault => .error (.pack fault)
  | .ok bytes =>
    match Frame.check limit bytes with
    | .error fault => .error (.frame fault)
    | .ok () => .ok bytes

/-- The frame of a message that is ready to be sent, packed into a pooled buffer. -/
def frameIn (pooled : Bytes) (limit : Nat) (r : Record) : Except SendError Bytes :=
  framed limit ((r.packInto (lentBuffer pooled r.encodedSize.toNat) 0).map (·.1))

/-- The frame of a message that is ready to be sent, packed into a buffer of its own. -/
def frame (limit : Nat) (r : Record) : Except SendError Bytes := r.frameIn [] limit

end Record

end TradeWire

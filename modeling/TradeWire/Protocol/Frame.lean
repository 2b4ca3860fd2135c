import TradeWire.Number.Word
import TradeWire.Text.Utf8

/-! Frames on a byte stream, each behind its own length in four little-endian bytes. -/

set_option autoImplicit false
set_option relaxedAutoImplicit false

namespace TradeWire.Frame

def lengthWidth : Nat := 4

/-- The limit on frame lengths that applies unless another is set. -/
def defaultLimit : Nat := 64 * 1024

/-- Why no frame can be read or written. -/
inductive Fault where
  /-- The stream ended between two frames. -/
  | ended
  | shortLength
  | lengthTooSmall (length : Nat)
  | tooLarge (length limit : Nat)
  | cutShort
  | lengthDisagrees (announced size : Nat)
deriving Repr, DecidableEq

def Fault.message : Fault → String
  | ended => "EOF"
  | shortLength => "frame: short length prefix"
  | lengthTooSmall length => "frame: length smaller than prefix: " ++ toString length
  | tooLarge length limit =>
    "frame: frame too large: " ++ toString length ++ " > " ++ toString limit
  | cutShort => "frame: connection closed mid-frame"
  | lengthDisagrees announced size =>
    "frame: length prefix disagrees with frame size: prefix " ++ toString announced ++ ", frame " ++
      toString size

def announced (bytes : Bytes) : Except Fault Nat :=
  if bytes.length < lengthWidth then .error .shortLength
  else .ok (Word.ofLittleEndian (bytes.take lengthWidth))

/-- Read a frame off a stream; the answer holds the rest of the stream. -/
def read (limit : Nat) (stream : Bytes) : Except Fault (Bytes × Bytes) :=
  if stream.isEmpty then .error .ended
  else
    match announced stream with
    | .error fault => .error fault
    | .ok length =>
      if length < lengthWidth then .error (.lengthTooSmall length)
      else if limit < length then .error (.tooLarge length limit)
      else if stream.length < length then .error .cutShort
      else .ok (stream.take length, stream.drop length)

/-- Read frames up to the first fault. A frame has four bytes at least, so the length of the stream is
fuel enough. -/
def readAllFrom (limit : Nat) : Nat → Bytes → List Bytes × Fault
  | 0, _ => ([], .ended)
  | fuel + 1, stream =>
    match read limit stream with
    | .error fault => ([], fault)
    | .ok (frame, rest) =>
      let (frames, fault) := readAllFrom limit fuel rest
      (frame :: frames, fault)

/-- The frames of a stream and the fault that ends reading; a clean end counts as one. -/
def readAll (limit : Nat) (stream : Bytes) : List Bytes × Fault :=
  readAllFrom limit (stream.length + 1) stream

def check (limit : Nat) (message : Bytes) : Except Fault Unit :=
  match announced message with
  | .error fault => .error fault
  | .ok length =>
    if limit < message.length then .error (.tooLarge message.length limit)
    else if length != message.length then .error (.lengthDisagrees length message.length)
    else .ok ()

def write (limit : Nat) (message written : Bytes) : Except Fault Bytes :=
  match check limit message with
  | .error fault => .error fault
  | .ok () => .ok (written ++ message)

end TradeWire.Frame

import TradeWire.Registry.Basic

/-! Payloads that carry several messages one behind the other. -/

set_option autoImplicit false
set_option relaxedAutoImplicit false

namespace TradeWire

structure Delivery where
  offset : Int
  length : Int
  record : Record

/-- Why a payload cannot be read to its end. -/
inductive WalkError where
  /-- The bytes left cannot hold a header. -/
  | shortTail (rest offset : Int)
  /-- The bytes left are fewer than the body length announces. -/
  | incomplete (rest offset length : Int)
  | lengthTooShort (length offset : Int)
  | header (fault : DecodeError)
  | message (offset : Int) (fault : DispatchError)
  | lengthDisagrees (name : String) (offset length decoded : Int)
deriving Repr, DecidableEq

def WalkError.text : WalkError → String
  | shortTail rest offset =>
    "registry: trailing bytes after last message: " ++ toString rest ++ " bytes at offset " ++
      toString offset
  | incomplete rest offset length =>
    "registry: trailing bytes after last message: " ++ toString rest ++ " bytes at offset " ++
      toString offset ++ ", body length " ++ toString length
  | lengthTooShort length offset =>
    "registry: body length shorter than message header: " ++ toString length ++ " at offset " ++
      toString offset
  | header fault => fault.message
  | message offset fault => "message at offset " ++ toString offset ++ ": " ++ fault.message
  | lengthDisagrees name offset length decoded =>
    "registry: body length disagrees with decoded size: " ++ name ++ " at offset " ++
      toString offset ++ ", body length " ++ toString length ++ ", decoded " ++ toString decoded

namespace Registry

/-- The position in a message behind both header fields. -/
def headerStop (r : Registry) : Int := max r.bodyLenAt.stop r.templateIdAt.stop

/-- Read the message of a payload that starts at `off`. -/
def deliver (r : Registry) (buf : Bytes) (off : Int) : Except WalkError Delivery :=
  let rest := buf.length - off
  if rest < r.headerStop then .error (.shortTail rest off)
  else
    match r.bodyLen buf off with
    | .error fault => .error (.header fault)
    | .ok length =>
      if length < r.headerStop then .error (.lengthTooShort length off)
      else if rest < length then .error (.incomplete rest off length)
      else
        match r.unpack (buf.take (off + length).toNat) off with
        | .error fault => .error (.message off fault)
        | .ok (record, stop) =>
          if stop != off + length then .error (.lengthDisagrees record.name off length (stop - off))
          else .ok ⟨off, length, record⟩

/-- Read messages from `off` on. Every message takes a byte at least, so the number of bytes left is
fuel enough. -/
def walkFrom (r : Registry) (buf : Bytes) : Nat → Int → List Delivery × Option WalkError
  | 0, _ => ([], none)
  | fuel + 1, off =>
    if (buf.length : Int) ≤ off then ([], none)
    else
      match r.deliver buf off with
      | .error fault => ([], some fault)
      | .ok delivery =>
        let (later, fault) := walkFrom r buf fuel (off + delivery.length)
        (delivery :: later, fault)

/-- Read a payload: the messages in front, and the fault that ends reading before the last byte. -/
def walk (r : Registry) (buf : Bytes) : List Delivery × Option WalkError := r.walkFrom buf buf.length 0

end Registry

end TradeWire

import TradeWire.Number.Word
import TradeWire.Text.Utf8

/-! Stretches of a byte buffer; one outside the buffer is not read and not written. -/

set_option autoImplicit false
set_option relaxedAutoImplicit false

namespace TradeWire.Buffer

/-- Whether `count` bytes from `start` on lie inside a buffer of `length` bytes. -/
def isInside (length : Nat) (start count : Int) : Bool :=
  0 ≤ start && 0 ≤ count && start + count ≤ length

def slice? (buf : Bytes) (start count : Int) : Option Bytes :=
  if isInside buf.length start count then some ((buf.drop start.toNat).take count.toNat) else none

def patch? (buf : Bytes) (start : Int) (data : Bytes) : Option Bytes :=
  if isInside buf.length start data.length then
    some (buf.take start.toNat ++ data ++ buf.drop (start.toNat + data.length))
  else none

/-- The test by which the codec decides that `count` bytes are not there: the end of the stretch is a
machine sum. -/
def isShort (length : Nat) (start count : Int) : Bool := start < 0 || length < Word.add start count

def remaining (length : Nat) (start : Int) : Int := max 0 (Word.wrap (length - start))

def zeroFilled (length : Nat) (data : Bytes) : Bytes := data ++ List.replicate (length - data.length) 0

end TradeWire.Buffer

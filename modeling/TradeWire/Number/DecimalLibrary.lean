/-! The calls of a decimal library that scaled fields are read and written with. -/

set_option autoImplicit false
set_option relaxedAutoImplicit false

namespace TradeWire

structure DecimalLibrary where
  Number : Type
  /-- Read a literal, or say why it is none. -/
  ofText : String → Except String Number
  /-- The coefficient, an integer, times a power of ten. -/
  ofUnits : Int → Int → Number
  exponent : Number → Int
  /-- Cut off the digits beyond some places behind the point, without rounding. -/
  truncate : Number → Int → Number
  equal : Number → Number → Bool
  /-- Add to the exponent. -/
  shift : Number → Int → Number
  /-- The integer part. -/
  integer : Number → Int
  text : Number → String

namespace DecimalLibrary

inductive Fault where
  | unreadable (reason : String)
  | tooManyPlaces
deriving Repr, DecidableEq

/-- The number of units of `10 ^ -places` that a text stands for. Digits beyond the places must be zero. -/
def units (lib : DecimalLibrary) (text : String) (places : Nat) : Except Fault Int :=
  match lib.ofText text with
  | .error reason => .error (.unreadable reason)
  | .ok d =>
    if lib.exponent d < -places && !lib.equal d (lib.truncate d places) then .error .tooManyPlaces
    else .ok (lib.integer (lib.shift d places))

def render (lib : DecimalLibrary) (n : Int) (places : Nat) : String := lib.text (lib.ofUnits n (-places))

end DecimalLibrary

end TradeWire

/-! Characters written by the hexadecimal digits of their code point. -/

set_option autoImplicit false
set_option relaxedAutoImplicit false

namespace TradeWire.Text

def hexDigit? (c : Char) : Option Nat :=
  if '0' ≤ c && c ≤ '9' then some (c.toNat - 48)
  else if 'a' ≤ c && c ≤ 'f' then some (c.toNat - 87)
  else if 'A' ≤ c && c ≤ 'F' then some (c.toNat - 55)
  else none

def isHexDigit (c : Char) : Bool := (hexDigit? c).isSome

/-- The number of hexadecimal digits, on top of the value read so far. -/
def hexValue : Nat → List Char → Option Nat
  | value, [] => some value
  | value, c :: rest => (hexDigit? c).bind fun d => hexValue (16 * value + d) rest

/-- The character of a code point, where there is one. -/
def codePoint? (n : Nat) : Option Char := if n.isValidChar then some (Char.ofNat n) else none

/-- The character that `count` hexadecimal digits stand for, and what follows them. -/
def hexChar (count : Nat) (cs : List Char) : Option (Char × List Char) :=
  if cs.length < count then none
  else ((hexValue 0 (cs.take count)).bind codePoint?).map (·, cs.drop count)

end TradeWire.Text

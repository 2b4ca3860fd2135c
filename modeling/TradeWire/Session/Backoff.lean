/-! Waiting times between attempts to connect: they grow by a factor up to a bound. -/

set_option autoImplicit false
set_option relaxedAutoImplicit false

namespace TradeWire

/-- How attempts are spaced. Times are in nanoseconds; a bound of zero or less does not apply. -/
structure Backoff where
  initialDelay : Int
  maxDelay : Int
  multiplier : Float

namespace Backoff

def default : Backoff := ⟨200000000, 2000000000, 2⟩

/-- The binary exponents beyond which a power has certainly left the range. -/
def exponentBound : Int := 4096

/-- Square and multiply: `product * 2 ^ scale` times the number `mantissa * 2 ^ exponent` to the power
given by binary digits, the lowest first. -/
def powerSteps : List Bool → Float → Int → Float → Int → Float × Int
  | [], _, _, product, scale => (product, scale)
  | digit :: rest, mantissa, exponent, product, scale =>
    if exponent < -exponentBound || exponentBound < exponent then (product, scale + exponent)
    else
      let (product, scale) :=
        if digit then (product * mantissa, scale + exponent) else (product, scale)
      let square := mantissa * mantissa
      if square < 0.5 then powerSteps rest (square + square) (2 * exponent - 1) product scale
      else powerSteps rest square (2 * exponent) product scale

/-- The binary digits of a number, the lowest first; `fuel` bounds their count. -/
def binaryDigits : Nat → Nat → List Bool
  | 0, _ => []
  | fuel + 1, n => if n = 0 then [] else (n % 2 == 1) :: binaryDigits fuel (n / 2)

/-- A power with a positive whole exponent of a base that is one or more. -/
def power (base : Float) (exponent : Nat) : Float :=
  if base == 1 then 1
  else if exponent == 1 then base
  else if 0x8000000000000000 ≤ exponent then 1 / 0
  else
    let (mantissa, scale) := base.frExp
    let (product, total) := powerSteps (binaryDigits 64 exponent) mantissa scale 1 0
    product.scaleB total

/-- The whole part of a non-negative number, as a signed 64-bit number; what does not fit gives the
least one. -/
def truncate (x : Float) : Int :=
  if x < 9223372036854775808.0 then x.toUInt64.toNat else -0x8000000000000000

def delay (b : Backoff) (n : Int) : Int :=
  if n ≤ 1 || b.initialDelay ≤ 0 then max b.initialDelay 0
  else
    let factor := if b.multiplier < 1 then 1 else b.multiplier
    let exponent := (Float.ofInt (n - 1)).toUInt64.toNat
    let wait := Float.ofInt b.initialDelay * power factor exponent
    if 0 < b.maxDelay && Float.ofInt b.maxDelay < wait then b.maxDelay else truncate wait

end Backoff

end TradeWire

import TradeWire.Text.Hex

/-! Lengths of time such as `1h2m3.5s`, added up to nanoseconds. -/

set_option autoImplicit false
set_option relaxedAutoImplicit false

namespace TradeWire.Duration

inductive Cause where
  | malformed
  | missingUnit
  | unknownUnit (unit : String)
deriving Repr, DecidableEq

structure Fault where
  text : String
  cause : Cause
deriving Repr, DecidableEq

private def escapeByte (b : UInt8) : String := "\\x" ++ Text.Hex.encode [b]

/-- A character between quotes; beyond ASCII and below the blank it is written byte by byte. -/
def quoteChar (c : Char) : String :=
  if 0x80 ≤ c.toNat || c.toNat < 0x20 then
    String.join ((Text.encodeUtf8 (String.ofList [c])).map escapeByte)
  else if c == '"' || c == '\\' then String.ofList ['\\', c]
  else String.ofList [c]

def quote (s : String) : String := "\"" ++ String.join (s.toList.map quoteChar) ++ "\""

def Fault.message (f : Fault) : String :=
  match f.cause with
  | .malformed => "time: invalid duration " ++ quote f.text
  | .missingUnit => "time: missing unit in duration " ++ quote f.text
  | .unknownUnit unit => "time: unknown unit " ++ quote unit ++ " in duration " ++ quote f.text

/-- The units in nanoseconds; the micro sign has two code points. -/
def units : List (String × Nat) := [
  ("ns", 1), ("us", 1000), ("µs", 1000), ("μs", 1000), ("ms", 1000000), ("s", 1000000000),
  ("m", 60000000000), ("h", 3600000000000)]

def bound : Nat := 0x8000000000000000

private def isDigit (c : Char) : Bool := '0' ≤ c && c ≤ '9'

/-- The number of some digits, unless it passes the bound. -/
def wholePart : Nat → List Char → Option Nat
  | value, [] => some value
  | value, c :: rest =>
    if bound / 10 < value then none
    else
      let next := value * 10 + (c.toNat - 48)
      if bound < next then none else wholePart next rest

/-- The digits behind a point as a number and the power of ten it is to be divided by; digits that
would pass the bound are left out. The power grows by one factor at a time in binary floating point. -/
def fraction : Nat → Float → List Char → Nat × Float
  | value, scale, [] => (value, scale)
  | value, scale, c :: rest =>
    if (bound - 1) / 10 < value then (value, scale)
    else
      let next := value * 10 + (c.toNat - 48)
      if bound < next then (value, scale) else fraction next (scale * 10) rest

/-- The nanoseconds of a fraction of a unit, in binary floating point. -/
def fractionNanos (value : Nat) (scale : Float) (unit : Nat) : Nat :=
  (Float.ofNat value * (Float.ofNat unit / scale)).toUInt64.toNat

def nanos (whole value : Nat) (scale : Float) (unit : Nat) : Option Nat :=
  if bound / unit < whole then none
  else
    let total := whole * unit + (if 0 < value then fractionNanos value scale unit else 0)
    if bound < total then none else some total

/-- Read one number with its unit; the answer holds what follows. -/
def term (cs : List Char) : Except Cause (Nat × List Char) :=
  let digits := cs.takeWhile isDigit
  let rest := cs.dropWhile isDigit
  let (places, rest) := match rest with
    | '.' :: after => (after.takeWhile isDigit, after.dropWhile isDigit)
    | _ => ([], rest)
  if digits.isEmpty && places.isEmpty then .error .malformed
  else
    match wholePart 0 digits with
    | none => .error .malformed
    | some whole =>
      let isUnit (c : Char) : Bool := c != '.' && !isDigit c
      let unit := String.ofList (rest.takeWhile isUnit)
      if unit == "" then .error .missingUnit
      else
        match units.lookup unit with
        | none => .error (.unknownUnit unit)
        | some size =>
          let (value, scale) := fraction 0 1 places
          match nanos whole value scale size with
          | none => .error .malformed
          | some n => .ok (n, rest.dropWhile isUnit)

/-- Add up numbers with units; every one takes a character at least. Sums are 64-bit words. -/
def terms : Nat → Nat → List Char → Except Cause Nat
  | _, total, [] => .ok total
  | 0, _, _ => .error .malformed
  | fuel + 1, total, cs =>
    match term cs with
    | .error cause => .error cause
    | .ok (n, rest) =>
      let sum := (total + n) % 0x10000000000000000
      if bound < sum then .error .malformed else terms fuel sum rest

/-- Split off a sign; `true` is the minus sign. -/
def splitSign : List Char → Bool × List Char
  | '-' :: rest => (true, rest)
  | '+' :: rest => (false, rest)
  | cs => (false, cs)

def signed (negative : Bool) (total : Nat) : Except Cause Int :=
  if negative then .ok (-(total : Int)) else if total < bound then .ok total else .error .malformed

/-- Read a length of time. -/
def parse (s : String) : Except Fault Int :=
  let (negative, cs) := splitSign s.toList
  if cs == ['0'] then .ok 0
  else if cs.isEmpty then .error ⟨s, .malformed⟩
  else
    match terms cs.length 0 cs with
    | .error cause => .error ⟨s, cause⟩
    | .ok total =>
      match signed negative total with
      | .error cause => .error ⟨s, cause⟩
      | .ok n => .ok n

end TradeWire.Duration

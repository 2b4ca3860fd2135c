import TradeWire.Number.DecimalLibrary
import TradeWire.Number.Literal

/-! Decimal numbers with a coefficient of any length and an exponent of 32 bits, and the library they make. -/

set_option autoImplicit false
set_option relaxedAutoImplicit false

namespace TradeWire

/-- The number `coefficient * 10 ^ exponent`. -/
structure Decimal where
  coefficient : Int
  exponent : Int
deriving Repr, DecidableEq

namespace Decimal

/-! ## Reading -/

def unconvertible (text reason : String) : String := "can't convert " ++ text ++ " to decimal" ++ reason

/-- The digits of a mantissa as one number, of any length. -/
def digitsValue : Nat → List Char → Option Nat
  | value, [] => some value
  | value, c :: rest =>
    if '0' ≤ c && c ≤ '9' then digitsValue (10 * value + (c.toNat - 48)) rest else none

def coefficient? (cs : List Char) : Option Int :=
  let (negative, ds) := Literal.splitSign cs
  if ds.isEmpty then none
  else (digitsValue 0 ds).map fun n => if negative then -(n : Int) else n

def splitExponent (cs : List Char) : List Char × Option (List Char) :=
  match cs.dropWhile fun c => c != 'e' && c != 'E' with
  | [] => (cs, none)
  | _ :: rest => (cs.takeWhile fun c => c != 'e' && c != 'E', some rest)

/-- The exponents a decimal may have. -/
def isExponent (n : Int) : Bool := -0x80000000 ≤ n && n < 0x80000000

/-- The digits of an exponent on top of the value read so far. A value that leaves 32 bits is reported at the
digit that makes it leave, whatever follows. -/
def exponentDigits : Nat → List Char → Except Literal.Fault Nat
  | value, [] => .ok value
  | value, c :: rest =>
    if '0' ≤ c && c ≤ '9' then
      let next := 10 * value + (c.toNat - 48)
      if 0x100000000 ≤ next then .error .outOfRange else exponentDigits next rest
    else .error .malformed

/-- The number behind an exponent mark. -/
def exponentValue : Option (List Char) → Except Literal.Fault Int
  | none => .ok 0
  | some cs =>
    let (negative, ds) := Literal.splitSign cs
    if ds.isEmpty then .error .malformed
    else
      match exponentDigits 0 ds with
      | .error fault => .error fault
      | .ok n =>
        let e := if negative then -(n : Int) else n
        if isExponent e then .ok e else .error .outOfRange

/-- The mantissa as one digit string and the number of digits behind its point, if it has one point at most. -/
def mantissa? (cs : List Char) : Option (List Char × Nat) :=
  if 1 < cs.count '.' then none
  else
    let fraction := (cs.dropWhile (· != '.')).drop 1
    some (cs.takeWhile (· != '.') ++ fraction, fraction.length)

/-- Read a decimal literal. -/
def parse (s : String) : Except String Decimal :=
  let (front, mark) := splitExponent s.toList
  let shown := String.ofList front
  match exponentValue mark with
  | .error .malformed => .error (unconvertible s ": exponent is not numeric")
  | .error .outOfRange => .error (unconvertible s ": fractional part too long")
  | .ok exponent =>
    match mantissa? front with
    | none => .error (unconvertible shown ": too many .s")
    | some (ds, places) =>
      match coefficient? ds with
      | none => .error (unconvertible shown "")
      | some c =>
        let e := exponent - places
        if isExponent e then .ok ⟨c, e⟩ else .error (unconvertible s ": fractional part too long")

/-! ## Arithmetic -/

/-- The number with another exponent; digits that this leaves no room for are cut off. -/
def rescale (d : Decimal) (exponent : Int) : Decimal :=
  if d.coefficient = 0 then ⟨0, exponent⟩
  else if d.exponent < exponent then
    ⟨d.coefficient.tdiv (Int.pow 10 (exponent - d.exponent).toNat), exponent⟩
  else ⟨d.coefficient * Int.pow 10 (d.exponent - exponent).toNat, exponent⟩

def truncate (d : Decimal) (places : Int) : Decimal :=
  if 0 ≤ places && d.exponent < -places then d.rescale (-places) else d

def equal (a b : Decimal) : Bool :=
  let e := min a.exponent b.exponent
  (a.rescale e).coefficient == (b.rescale e).coefficient

/-- The sum of two exponents, which wraps. -/
def addExponents (a b : Int) : Int := Int.bmod (a + b) 0x100000000

def shift (d : Decimal) (places : Int) : Decimal := ⟨d.coefficient, addExponents d.exponent places⟩

def integer (d : Decimal) : Int := (d.rescale 0).coefficient

/-! ## Writing -/

/-- The digits of a natural number. -/
def natDigits (n : Nat) : List Char := Nat.toDigits 10 n

/-- The text of `n / 10 ^ places` in plain notation, without trailing zeros behind the point. -/
def plain (n : Int) (places : Nat) : String :=
  let ds := natDigits n.natAbs
  let filled := List.replicate (places + 1 - ds.length) '0' ++ ds
  let whole := filled.take (filled.length - places)
  let fraction := (((filled.drop (filled.length - places)).reverse.dropWhile (· == '0'))).reverse
  let number := if fraction.isEmpty then whole else whole ++ '.' :: fraction
  String.ofList (if n < 0 then '-' :: number else number)

def text (d : Decimal) : String :=
  if 0 ≤ d.exponent then plain d.integer 0 else plain d.coefficient (-d.exponent).toNat

end Decimal

def DecimalLibrary.standard : DecimalLibrary where
  Number := Decimal
  ofText := Decimal.parse
  ofUnits := Decimal.mk
  exponent := Decimal.exponent
  truncate := Decimal.truncate
  equal := Decimal.equal
  shift := Decimal.shift
  integer := Decimal.integer
  text := Decimal.text

end TradeWire

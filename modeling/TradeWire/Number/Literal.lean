import TradeWire.Number.Word
import TradeWire.Text.Quoted

/-! Integer literals, in decimal digits or behind a base mark, and the two ways they fail. -/

set_option autoImplicit false
set_option relaxedAutoImplicit false

namespace TradeWire.Literal

/-- Why a text is not a literal of the wanted kind. -/
inductive Fault where
  | malformed
  | outOfRange
deriving Repr, DecidableEq

def Fault.message : Fault → String
  | .malformed => "invalid syntax"
  | .outOfRange => "value out of range"

/-- The value of a digit or letter of either case, letters counting on from ten. -/
def digitValue? (c : Char) : Option Nat :=
  if '0' ≤ c && c ≤ '9' then some (c.toNat - 48)
  else if 'a' ≤ c && c ≤ 'z' then some (c.toNat - 87)
  else if 'A' ≤ c && c ≤ 'Z' then some (c.toNat - 55)
  else none

/-- Read the digits of a literal on top of the value read so far; underscores are skipped where the
form admits them. A value that leaves 64 bits is reported at the digit that makes it leave. -/
def digits (base : Nat) (skips : Bool) : Nat → List Char → Except Fault Nat
  | value, [] => .ok value
  | value, c :: rest =>
    if skips && c == '_' then digits base skips value rest
    else
      match digitValue? c with
      | none => .error .malformed
      | some d =>
        if base ≤ d then .error .malformed
        else if 0x10000000000000000 ≤ value * base + d then .error .outOfRange
        else digits base skips (value * base + d) rest

/-- Apply a sign to a magnitude and keep to signed 64-bit numbers. -/
def signed (negative : Bool) (magnitude : Except Fault Nat) : Except Fault Int :=
  match magnitude with
  | .error fault => .error fault
  | .ok n =>
    if negative then
      if n ≤ 0x8000000000000000 then .ok (-(n : Int)) else .error .outOfRange
    else if n < 0x8000000000000000 then .ok n else .error .outOfRange

/-- Split off a sign; `true` is the minus sign. -/
def splitSign : List Char → Bool × List Char
  | '-' :: rest => (true, rest)
  | '+' :: rest => (false, rest)
  | cs => (false, cs)

def decimal (s : String) : Except Fault Int :=
  let (negative, cs) := splitSign s.toList
  if cs.isEmpty then .error .malformed else signed negative (digits 10 false 0 cs)

/-- The base a literal announces, with the digits behind the mark. -/
def splitBase : List Char → Nat × List Char
  | '0' :: mark :: d :: rest =>
    if mark == 'b' || mark == 'B' then (2, d :: rest)
    else if mark == 'o' || mark == 'O' then (8, d :: rest)
    else if mark == 'x' || mark == 'X' then (16, d :: rest)
    else (8, mark :: d :: rest)
  | '0' :: rest => (8, rest)
  | cs => (10, cs)

/-- What stands before a position of a literal, as far as underscores care. -/
inductive Before where
  | start
  | digit
  | underscore
  | other
deriving Repr, DecidableEq

def underscoresBetween (hexadecimal : Bool) : Before → List Char → Bool
  | before, [] => before != .underscore
  | before, c :: rest =>
    if ('0' ≤ c && c ≤ '9') ||
        (hexadecimal && (('a' ≤ c && c ≤ 'f') || ('A' ≤ c && c ≤ 'F'))) then
      underscoresBetween hexadecimal .digit rest
    else if c == '_' then
      if before == .digit then underscoresBetween hexadecimal .underscore rest else false
    else if before == .underscore then false
    else underscoresBetween hexadecimal .other rest

/-- Underscores stand between digits, or between a base mark and a digit. -/
def underscoresWellPlaced (cs : List Char) : Bool :=
  match cs with
  | '0' :: mark :: rest =>
    if mark == 'x' || mark == 'X' then underscoresBetween true .digit rest
    else if mark == 'b' || mark == 'B' || mark == 'o' || mark == 'O' then
      underscoresBetween false .digit rest
    else underscoresBetween false .start cs
  | _ => underscoresBetween false .start cs

/-- The magnitude of a literal with optional base mark and underscores. -/
def magnitude (cs : List Char) : Except Fault Nat :=
  if cs.isEmpty then .error .malformed
  else
    let (base, ds) := splitBase cs
    match digits base true 0 ds with
    | .error fault => .error fault
    | .ok n => if cs.contains '_' && !underscoresWellPlaced cs then .error .malformed else .ok n

/-- An unsigned 64-bit literal; a sign is not part of it. -/
def unsigned (s : String) : Except Fault Nat := magnitude s.toList

def integer (s : String) : Except Fault Int :=
  let (negative, cs) := splitSign s.toList
  signed negative (magnitude cs)

def truth? (s : String) : Option Bool :=
  if ["1", "t", "T", "TRUE", "true", "True"].contains s then some true
  else if ["0", "f", "F", "FALSE", "false", "False"].contains s then some false
  else none

end TradeWire.Literal

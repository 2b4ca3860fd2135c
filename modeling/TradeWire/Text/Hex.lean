import TradeWire.Text.Utf8
import TradeWire.Text.Printable

/-! Bytes written as pairs of hexadecimal digits. -/

set_option autoImplicit false
set_option relaxedAutoImplicit false

namespace TradeWire.Text.Hex

/-- Why a text is not a sequence of digit pairs. -/
inductive Fault where
  | notDigit (byte : UInt8)
  | oddLength
deriving Repr, DecidableEq

def digit (n : Nat) : Char := if n < 10 then Char.ofNat (48 + n) else Char.ofNat (87 + n)

def byteDigits (b : UInt8) : List Char := [digit (b.toNat / 16), digit (b.toNat % 16)]

def encode (bytes : Bytes) : String := String.ofList (bytes.flatMap byteDigits)

def digitValue? (b : UInt8) : Option Nat :=
  if 48 ≤ b && b ≤ 57 then some (b.toNat - 48)
  else if 97 ≤ b && b ≤ 102 then some (b.toNat - 87)
  else if 65 ≤ b && b ≤ 70 then some (b.toNat - 55)
  else none

def decodeBytes : Bytes → Except Fault Bytes
  | [] => .ok []
  | [a] =>
    match digitValue? a with
    | none => .error (.notDigit a)
    | some _ => .error .oddLength
  | a :: b :: rest =>
    match digitValue? a with
    | none => .error (.notDigit a)
    | some high =>
      match digitValue? b with
      | none => .error (.notDigit b)
      | some low =>
        match decodeBytes rest with
        | .error fault => .error fault
        | .ok bytes => .ok (UInt8.ofNat (16 * high + low) :: bytes)

def decode (s : String) : Except Fault Bytes := decodeBytes (encodeUtf8 s)

def ofNat (n : Nat) : String := String.ofList (Nat.toDigits 16 n)

/-- The digits of a number, filled with zeros in front up to `width`. -/
def padded (width n : Nat) : String :=
  let digits := Nat.toDigits 16 n
  String.ofList (List.replicate (width - digits.length) '0' ++ digits)

private def upperDigit (c : Char) : Char :=
  if 'a' ≤ c && c ≤ 'f' then Char.ofNat (c.toNat - 32) else c

def Fault.message : Fault → String
  | .oddLength => "encoding/hex: odd length hex string"
  | .notDigit byte =>
    let point := "U+" ++ String.ofList ((padded 4 byte.toNat).toList.map upperDigit)
    let c := Char.ofNat byte.toNat
    let shown := if isPrintable c then point ++ " '" ++ String.ofList [c] ++ "'" else point
    "encoding/hex: invalid byte: " ++ shown

end TradeWire.Text.Hex

import TradeWire.Text.Hex
import TradeWire.Text.Printable
import TradeWire.Text.Utf8

/-! Quoted texts: printable characters stand for themselves, everything else is escaped. -/

set_option autoImplicit false
set_option relaxedAutoImplicit false

namespace TradeWire.Text

def controlLetter? (c : Char) : Option Char :=
  match c.toNat with
  | 7 => some 'a'
  | 8 => some 'b'
  | 12 => some 'f'
  | 10 => some 'n'
  | 13 => some 'r'
  | 9 => some 't'
  | 11 => some 'v'
  | _ => none

def escapeChar (delimiter c : Char) : String :=
  if c == delimiter || c == '\\' then String.ofList ['\\', c]
  else if isPrintable c then String.ofList [c]
  else
    match controlLetter? c with
    | some letter => String.ofList ['\\', letter]
    | none =>
      let n := c.toNat
      if n < 0x20 || n == 0x7f then "\\x" ++ Hex.padded 2 n
      else if n < 0x10000 then "\\u" ++ Hex.padded 4 n
      else "\\U" ++ Hex.padded 8 n

def escapePiece (delimiter : Char) : Piece → String
  | .char c => escapeChar delimiter c
  | .stray b => "\\x" ++ Hex.padded 2 b.toNat

def quoteBytes (bytes : Bytes) : String :=
  "\"" ++ String.join ((pieces bytes).map (escapePiece '"')) ++ "\""

def quote (s : String) : String :=
  "\"" ++ String.join (s.toList.map (escapeChar '"')) ++ "\""

/-- Whether a text can stand between backquotes, where nothing is escaped. -/
def isRaw (s : String) : Bool :=
  s.toList.all fun c =>
    c == '\t' || (0x20 ≤ c.toNat && c.toNat != 0x7f && c.toNat != 0x60 && c.toNat != 0xfeff)

/-- A text between backquotes, or in double quotes if it cannot stand there. -/
def quoteRaw (s : String) : String := if isRaw s then "`" ++ s ++ "`" else quote s

def quoteChar (c : Char) : String := "'" ++ escapeChar '\'' c ++ "'"

end TradeWire.Text

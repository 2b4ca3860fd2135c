import TradeWire.Number.Word
import TradeWire.Settings.Toml.Text

/-! Unquoted values: integers, numbers with a fraction, dates, times and truth values. -/

set_option autoImplicit false
set_option relaxedAutoImplicit false

namespace TradeWire.Toml

def isBare (c : Char) : Bool :=
  isDigit c || ('a' ≤ c && c ≤ 'z') || ('A' ≤ c && c ≤ 'Z') || c == '_' || c == '-'

/-- The digits of a number without the underscores, each of which stands between digits. -/
def plainDigits (isDigit : Char → Bool) : List Char → Option (List Char)
  | [] => none
  | [c] => if isDigit c then some [c] else none
  | c :: '_' :: rest => if isDigit c then (plainDigits isDigit rest).map (c :: ·) else none
  | c :: rest => if isDigit c then (plainDigits isDigit rest).map (c :: ·) else none

def ofDigits (base : Nat) (ds : List Char) : Nat :=
  ds.foldl (fun value c => value * base + (Text.hexDigit? c).getD 0) 0

def marked (base : Nat) (ds : List Char) : Option Int :=
  (plainDigits (fun c => (Text.hexDigit? c).any (· < base)) ds).map fun plain =>
    (ofDigits base plain : Int)

/-- The digits of a decimal number without a leading zero. -/
def decimalDigits (ds : List Char) : Option (List Char) :=
  (plainDigits isDigit ds).filter fun plain => plain.head? != some '0' || plain.length ≤ 1

def unsigned (ds : List Char) : Option Int := (decimalDigits ds).map fun plain => (ofDigits 10 plain : Int)

def integer? (word : List Char) : Option Int :=
  let value := match word with
    | '0' :: 'x' :: ds => marked 16 ds
    | '0' :: 'o' :: ds => marked 8 ds
    | '0' :: 'b' :: ds => marked 2 ds
    | '-' :: ds => (unsigned ds).map (- ·)
    | '+' :: ds => unsigned ds
    | ds => unsigned ds
  value.filter Word.isSigned

def dropSign : List Char → List Char
  | '-' :: rest => rest
  | '+' :: rest => rest
  | cs => cs

/-- The least number that is too large for 64-bit binary floating point. -/
def realBound : Nat := (1 <<< 1024) - (1 <<< 970)

/-- Whether `n` times a power of ten is too large for floating point. The number of digits decides
unless it is near that of the bound. -/
def isBeyondReal (n : Nat) (power : Int) : Bool :=
  let magnitude := ((toString n).length : Int) + power
  if n == 0 || magnitude < 300 then false
  else if 310 < magnitude then true
  else if 0 ≤ power then realBound ≤ n * Nat.pow 10 power.toNat
  else realBound * Nat.pow 10 (-power).toNat ≤ n

/-- The digits behind the mark of an exponent as a number. -/
def exponent? (ds : List Char) : Option Int :=
  (plainDigits isDigit (dropSign ds)).map fun plain =>
    let n : Int := ofDigits 10 plain
    if ds.head? == some '-' then -n else n

/-- A number with a fraction or an exponent, or one that is none or has no end. -/
def isReal (word : List Char) : Bool :=
  let body := dropSign word
  if body == "inf".toList || body == "nan".toList then true
  else
    let isMark (c : Char) : Bool := c == 'e' || c == 'E'
    let mantissa := body.takeWhile (!isMark ·)
    let whole := mantissa.takeWhile (· != '.')
    let hasPoint := whole.length < mantissa.length
    let hasPower := mantissa.length < body.length
    let places := if hasPoint then plainDigits isDigit (mantissa.drop (whole.length + 1)) else some []
    let power := if hasPower then exponent? (body.drop (mantissa.length + 1)) else some 0
    match decimalDigits whole, places, power with
    | some digits, some places, some power =>
      (hasPoint || hasPower) && !isBeyondReal (ofDigits 10 (digits ++ places)) (power - places.length)
    | _, _, _ => false

/-- A number of two digits that lies between two bounds. -/
def twoDigits (low high : Nat) : List Char → Option (List Char)
  | a :: b :: rest =>
    let n := ofDigits 10 [a, b]
    if isDigit a && isDigit b && low ≤ n && n ≤ high then some rest else none
  | _ => none

def daysIn (year month : Nat) : Nat :=
  if month == 2 then
    if year % 4 == 0 && (year % 100 != 0 || year % 400 == 0) then 29 else 28
  else if [4, 6, 9, 11].contains month then 30
  else 31

def date? : List Char → Option (List Char)
  | a :: b :: c :: e :: '-' :: m :: n :: '-' :: rest =>
    let year := ofDigits 10 [a, b, c, e]
    let month := ofDigits 10 [m, n]
    if [a, b, c, e, m, n].all isDigit && 1 ≤ month && month ≤ 12 then
      twoDigits 1 (daysIn year month) rest
    else none
  | _ => none

def skipFraction : List Char → List Char
  | '.' :: c :: rest => if isDigit c then rest.dropWhile isDigit else '.' :: c :: rest
  | cs => cs

/-- What follows a time of day; seconds may be left out. -/
def time? (cs : List Char) : Option (List Char) :=
  match twoDigits 0 23 cs with
  | some (':' :: minutes) =>
    match twoDigits 0 59 minutes with
    | some (':' :: seconds) => (twoDigits 0 59 seconds).map skipFraction
    | other => other
  | _ => none

/-- Whether a distance from universal time, or nothing, ends a word. -/
def isOffset : List Char → Bool
  | [] => true
  | ['Z'] => true
  | ['z'] => true
  | sign :: rest =>
    (sign == '+' || sign == '-') &&
      match twoDigits 0 24 rest with
      | some (':' :: minutes) => twoDigits 0 60 minutes == some []
      | _ => false

/-- A date, a time of day, or both with or without a distance from universal time. -/
def isMoment (word : List Char) : Bool :=
  match date? word with
  | some [] => true
  | some (mark :: rest) => (mark == 'T' || mark == 't' || mark == ' ') && ((time? rest).any isOffset)
  | none => time? word == some []

/-- A character of an unquoted value other than a date. -/
def isValueChar (c : Char) : Bool := isBare c || c == '+' || c == '.'

def isMomentChar (c : Char) : Bool := isDigit c || "-:Tt.Zz+".toList.contains c

def isPlainWord (word : List Char) : Bool :=
  word == "true".toList || word == "false".toList || (integer? word).isSome || isReal word

/-- Read an unquoted value that must be well formed. Blanks behind a date are taken with it. -/
def thoroughWord (cs : List Char) : Read String :=
  let afterDigits := cs.dropWhile isDigit
  let startsMoment := cs.head?.any isDigit && (afterDigits.head? == some '-' || afterDigits.head? == some ':')
  if startsMoment then
    let isPart (c : Char) : Bool := isMomentChar c || c == ' '
    let word := ((cs.takeWhile isPart).reverse.dropWhile (· == ' ')).reverse
    if isMoment word then some (String.ofList word, cs.dropWhile isPart) else none
  else
    let word := cs.takeWhile isValueChar
    if isPlainWord word then some (String.ofList word, cs.dropWhile isValueChar) else none

/-- The characters of a date or a time. A blank and what follows it are part of it once, if that is a
digit and any further character. -/
def momentSpan (hasBlank : Bool) : List Char → List Char
  | [] => []
  | [c] => if isMomentChar c then [c] else []
  | ' ' :: c :: rest =>
    if hasBlank || !isDigit c then []
    else
      match rest with
      | [] => [' ', c]
      | x :: more => if x.toNat < 0x80 then ' ' :: c :: x :: momentSpan true more else [' ', c]
  | c :: rest => if isMomentChar c then c :: momentSpan hasBlank rest else []

/-- A character of a number, as far as a loose reader looks. -/
def isLooseChar (c : Char) : Bool := isDigit c || "+-_.eE".toList.contains c

/-- The digits of a number with a mark for its base, with underscores anywhere. -/
def markedSpan (base : Nat) (ds : List Char) : List Char :=
  ds.takeWhile fun c => c == '_' || (Text.hexDigit? c).any (· < base)

/-- The characters of a number that starts with a zero and has more behind it. -/
def zeroSpan : List Char → List Char
  | '0' :: 'x' :: ds => '0' :: 'x' :: markedSpan 16 ds
  | '0' :: 'o' :: ds => '0' :: 'o' :: markedSpan 8 ds
  | '0' :: 'b' :: ds => '0' :: 'b' :: markedSpan 2 ds
  | _ => ['0']

def numberSpan (cs : List Char) : Option (List Char) :=
  let startsZero := match cs with
    | '0' :: c :: _ :: _ => !(c == '.' || c == 'e' || c == 'E')
    | _ => false
  if startsZero then some (zeroSpan cs)
  else
    let span := cs.takeWhile isLooseChar
    match cs.drop span.length with
    | 'i' :: 'n' :: 'f' :: _ => some (span ++ "inf".toList)
    | 'i' :: _ => none
    | 'n' :: 'a' :: 'n' :: _ => some (span ++ "nan".toList)
    | 'n' :: _ => none
    | _ => if span.isEmpty then none else some span

def looseSpan (cs : List Char) : Option (List Char) :=
  match cs with
  | 't' :: _ => if "true".toList.isPrefixOf cs then some "true".toList else none
  | 'f' :: _ => if "false".toList.isPrefixOf cs then some "false".toList else none
  | a :: b :: ':' :: _ => if isDigit a && isDigit b then some (momentSpan false cs) else numberSpan cs
  | a :: b :: c :: e :: '-' :: _ =>
    if [a, b, c, e].all isDigit then some (momentSpan false cs) else numberSpan cs
  | _ => numberSpan cs

/-- Find the end of an unquoted value and take it as it stands. -/
def looseWord (cs : List Char) : Read String :=
  (looseSpan cs).map fun span => (String.ofList span, cs.drop span.length)

end TradeWire.Toml

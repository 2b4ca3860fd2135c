import TradeWire.Text.CodePoint
import TradeWire.Text.Pattern

/-! Conditions on a field of the preceding message, such as `TimeInForce is Day or GTC` and `Side is not Buy`. -/

set_option autoImplicit false
set_option relaxedAutoImplicit false

namespace TradeWire

namespace Condition

/-! ## Tokens -/

/-- The kinds of tokens. Blanks stand between the others and are dropped. -/
inductive TokenKind where
  | text
  | number
  | name
  | comma
  | blank
deriving Repr, DecidableEq

/-- A token: its kind and its text, without quotes and escapes. -/
structure Token where
  kind : TokenKind
  text : String
deriving Repr, DecidableEq

def isSpace (c : Char) : Bool := c == ' ' || c == '\t' || c == '\r' || c == '\n'

def isDigit (c : Char) : Bool := '0' ≤ c && c ≤ '9'

def startsName (c : Char) : Bool := ('a' ≤ c && c ≤ 'z') || ('A' ≤ c && c ≤ 'Z') || c == '_'

def continuesName (c : Char) : Bool := startsName c || isDigit c || c == '.'

/-- A text in quotes. An escaped quote ends it only where no other one does. -/
def quoted (quote : Char) : Pattern :=
  .seq (.one (· == quote))
    (.seq (.many (.either (.seq (.one (· == '\\')) (.one (· == quote))) (.one (· != quote))))
      (.one (· == quote)))

def hexNumber : Pattern :=
  .seq (.one (· == '0')) (.seq (.one fun c => c == 'x' || c == 'X') (.some (.one Text.isHexDigit)))

def decimalNumber : Pattern := .seq (.optional (.one (· == '-'))) (.some (.one isDigit))

/-- The kinds of tokens with their patterns, in the order in which they are tried. -/
def rules : List (TokenKind × Pattern) :=
  [(.text, .either (quoted '"') (quoted '\'')),
    (.number, .either hexNumber decimalNumber),
    (.name, .seq (.one startsName) (.many (.one continuesName))),
    (.comma, .one (· == ',')),
    (.blank, .some (.one isSpace))]

/-- The kind of what stands in front of a text, itself and what follows it. -/
def front (cs : List Char) : Option (TokenKind × List Char × List Char) :=
  rules.findSome? fun rule => (rule.2.first cs).map (rule.1, ·)

/-- The character that an octal escape stands for; it has three digits and is below 256. -/
def octalChar : List Char → Option (Char × List Char)
  | a :: b :: c :: rest =>
    let isOctal (d : Char) : Bool := '0' ≤ d && d ≤ '7'
    let value := 64 * (a.toNat - 48) + 8 * (b.toNat - 48) + (c.toNat - 48)
    if isOctal a && isOctal b && isOctal c && value < 256 then some (Char.ofNat value, rest) else none
  | _ => none

def escaped (delimiter : Char) : List Char → Option (Char × List Char)
  | [] => none
  | c :: rest =>
    match c with
    | 'a' => some (Char.ofNat 7, rest)
    | 'b' => some (Char.ofNat 8, rest)
    | 'f' => some (Char.ofNat 12, rest)
    | 'n' => some ('\n', rest)
    | 'r' => some ('\r', rest)
    | 't' => some ('\t', rest)
    | 'v' => some (Char.ofNat 11, rest)
    | 'x' => Text.hexChar 2 rest
    | 'u' => Text.hexChar 4 rest
    | 'U' => Text.hexChar 8 rest
    | '\\' => some ('\\', rest)
    | _ =>
      if c == delimiter then some (c, rest)
      else if '0' ≤ c && c ≤ '7' then octalChar (c :: rest)
      else none

/-- Resolve the escapes of a quoted text; every step takes a character at least. -/
def unescape (delimiter : Char) : Nat → List Char → Option (List Char)
  | _, [] => some []
  | 0, _ => none
  | fuel + 1, c :: rest =>
    if c == delimiter then none
    else if c == '\\' then
      match escaped delimiter rest with
      | none => none
      | some (d, after) => (unescape delimiter fuel after).map (d :: ·)
    else (unescape delimiter fuel rest).map (c :: ·)

def unquoted : List Char → Option (List Char)
  | [] => none
  | quote :: rest => unescape quote rest.length rest.dropLast

def content (unquote : List Char → Option (List Char)) (kind : TokenKind) (text : List Char) : Option String :=
  (if kind = .text then unquote text else some text).map String.ofList

/-- The tokens of a text; every step takes a character at least. -/
def lex (unquote : List Char → Option (List Char)) : Nat → List Char → Option (List Token)
  | _, [] => some []
  | 0, _ :: _ => none
  | fuel + 1, cs =>
    match front cs with
    | none => none
    | some (kind, text, rest) =>
      if kind = .blank then lex unquote fuel rest
      else
        match content unquote kind text with
        | none => none
        | some shown => (lex unquote fuel rest).map (⟨kind, shown⟩ :: ·)

/-! ## Grammar -/

def Token.isValue (t : Token) : Bool := t.kind == .name || t.kind == .number || t.kind == .text

def Token.separates (t : Token) : Bool := t.text == "or" || t.text == ","

def moreValues : List Token → Option (List String)
  | [] => some []
  | separator :: value :: rest =>
    if separator.separates && value.isValue then (moreValues rest).map (value.text :: ·) else none
  | [_] => none

def valueList : List Token → Option (List String)
  | value :: rest => if value.isValue then (moreValues rest).map (value.text :: ·) else none
  | [] => none

/-- What a condition tests: whether the value of a field is, or is not, among the given ones. -/
structure Test where
  field : String
  negated : Bool
  values : List String
deriving Repr, DecidableEq

/-- Read the tokens of a condition. The word `not` in front of the values always negates. -/
def testOf : List Token → Option Test
  | field :: is_ :: rest =>
    if field.kind == .name && is_.text == "is" then
      match rest with
      | word :: values =>
        if word.text == "not" then (valueList values).map (⟨field.text, true, ·⟩)
        else (valueList (word :: values)).map (⟨field.text, false, ·⟩)
      | [] => none
    else none
  | _ => none

/-- More values than these are refused. -/
def maxValues : Nat := 1000000

/-- What reads a test from a text that the grammar covers. -/
abbrev Parser := String → Option Test

def Parser.standard : Parser := fun text =>
  ((lex unquoted text.toList.length text.toList).bind testOf).filter (·.values.length ≤ maxValues)

end Condition

/-- A condition: its text and, where the grammar covers it, what it tests. -/
structure Condition where
  text : String
  test : Option Condition.Test
deriving Repr, DecidableEq

namespace Condition

def Test.render (t : Test) : String :=
  t.field ++ " is " ++ (if t.negated then "not " else "") ++ String.intercalate " or " t.values

def readBy (parser : Parser) (text : String) : Condition := ⟨text, parser text⟩

def parse (text : String) : Condition := readBy .standard text

/-- The text of a condition, in canonical form where it was understood. -/
def render (c : Condition) : String :=
  match c.test with
  | some t => t.render
  | none => c.text

end Condition

end TradeWire

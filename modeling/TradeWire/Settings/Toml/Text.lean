import TradeWire.Settings.Toml.Dialect
import TradeWire.Text.CodePoint

/-! The texts of a settings document: on one line or on several, with escapes or as they stand. -/

set_option autoImplicit false
set_option relaxedAutoImplicit false

namespace TradeWire.Toml

def isSpace (c : Char) : Bool := c == ' ' || c == '\t'

def isDigit (c : Char) : Bool := '0' ≤ c && c ≤ '9'

/-- A character that must not stand in a text or a comment. -/
def isControl (c : Char) : Bool := (c.toNat < 0x20 && c != '\t') || c.toNat == 0x7f

def skipSpaces (cs : List Char) : List Char := cs.dropWhile isSpace

def newline? : List Char → Option (List Char)
  | '\n' :: rest => some rest
  | '\r' :: '\n' :: rest => some rest
  | _ => none

def skipBlanks : List Char → List Char
  | [] => []
  | '\r' :: '\n' :: rest => skipBlanks rest
  | c :: rest => if isSpace c || c == '\n' then skipBlanks rest else c :: rest

def comment : List Char → Option (List Char)
  | [] => some []
  | c :: rest =>
    if (newline? (c :: rest)).isSome then some (c :: rest)
    else if isControl c then none
    else comment rest

/-- Drop what may stand behind a value or a table name on its line. -/
def endOfLine (cs : List Char) : Option (List Char) :=
  let rest := match skipSpaces cs with
    | '#' :: after => comment after
    | other => some other
  match rest with
  | none => none
  | some [] => some []
  | some other => newline? other

def escape (d : Dialect) : List Char → Read Char
  | 'b' :: rest => some (Char.ofNat 8, rest)
  | 't' :: rest => some ('\t', rest)
  | 'n' :: rest => some ('\n', rest)
  | 'f' :: rest => some (Char.ofNat 12, rest)
  | 'r' :: rest => some ('\r', rest)
  | 'e' :: rest => some (Char.ofNat 27, rest)
  | '"' :: rest => some ('"', rest)
  | '\\' :: rest => some ('\\', rest)
  | 'x' :: rest => if d.hexPairs then Text.hexChar 2 rest else none
  | 'u' :: rest => Text.hexChar 4 rest
  | 'U' :: rest => Text.hexChar 8 rest
  | _ => none

def consBody (c : Char) (r : Read (List Char)) : Read (List Char) :=
  r.map fun (body, rest) => (c :: body, rest)

/-- A text up to its closing double quote; every step takes a character at least. -/
def basicText (d : Dialect) : Nat → List Char → Read (List Char)
  | 0, _ => none
  | _, [] => none
  | fuel + 1, c :: rest =>
    if c == '"' then some ([], rest)
    else if c == '\\' then
      match escape d rest with
      | none => none
      | some (e, after) => consBody e (basicText d fuel after)
    else if isControl c then none
    else consBody c (basicText d fuel rest)

/-- A text up to its closing single quote, taken as it stands. -/
def literalText : List Char → Read (List Char)
  | [] => none
  | c :: rest =>
    if c == '\'' then some ([], rest)
    else if isControl c then none
    else consBody c (literalText rest)

def quotedText (d : Dialect) : List Char → Read String
  | '"' :: rest =>
    (basicText d (rest.length + 1) rest).map fun (body, after) => (String.ofList body, after)
  | '\'' :: rest => (literalText rest).map fun (body, after) => (String.ofList body, after)
  | _ => none

def quoteRun (q : Char) (cs : List Char) : Nat := (cs.takeWhile (· == q)).length

/-- End a text of several lines at its closing quotes. Of a longer run the last three close, and the
ones in front of them belong to the text; `most` quotes may stand together. -/
def closeText (q : Char) (most : Nat) (cs : List Char) : Read (List Char) :=
  let run := quoteRun q cs
  if run ≤ most then some (List.replicate (run - 3) q, cs.drop run) else none

/-- A line end inside a text of several lines starts here. -/
def isLineEnd (c : Char) (rest : List Char) : Bool := (newline? (c :: rest)).isSome

/-- What follows a backslash at the end of its line: the blanks and line ends behind it are dropped. -/
def foldedLine? (cs : List Char) : Option (List Char) := (newline? (skipSpaces cs)).map skipBlanks

/-- The most quotes that may stand together at the end of a text of several lines. -/
def mostQuotes : Nat := 5

/-- The body of a text of several lines with escapes; every step takes a character at least. -/
def multilineBasic (d : Dialect) : Nat → Nat → List Char → Read (List Char)
  | 0, _, _ => none
  | _, _, [] => none
  | fuel + 1, most, c :: rest =>
    if c == '"' then
      if quoteRun '"' (c :: rest) < 3 then consBody c (multilineBasic d fuel mostQuotes rest)
      else closeText '"' most (c :: rest)
    else if c == '\\' then
      match foldedLine? rest with
      | some after => multilineBasic d fuel mostQuotes after
      | none =>
        match escape d rest with
        | none => none
        | some (e, after) =>
          let most := if d.longClosing && rest.head? == some '\\' then mostQuotes + 1 else mostQuotes
          consBody e (multilineBasic d fuel most after)
    else if isControl c && !isLineEnd c rest then none
    else consBody c (multilineBasic d fuel mostQuotes rest)

/-- The body of a text of several lines, taken as it stands. -/
def multilineLiteral : List Char → Read (List Char)
  | [] => none
  | c :: rest =>
    if c == '\'' && 3 ≤ quoteRun '\'' (c :: rest) then closeText '\'' mostQuotes (c :: rest)
    else if isControl c && !isLineEnd c rest then none
    else consBody c (multilineLiteral rest)

/-- A line end right behind the opening quotes does not count. -/
def dropFirstLineEnd (cs : List Char) : List Char := (newline? cs).getD cs

/-- A text as a value: three quotes open one of several lines. -/
def valueText (d : Dialect) : List Char → Read String
  | '"' :: '"' :: '"' :: rest =>
    let start := dropFirstLineEnd rest
    (multilineBasic d (start.length + 1) mostQuotes start).map fun (body, after) =>
      (String.ofList body, after)
  | '\'' :: '\'' :: '\'' :: rest =>
    (multilineLiteral (dropFirstLineEnd rest)).map fun (body, after) => (String.ofList body, after)
  | cs => quotedText d cs

end TradeWire.Toml

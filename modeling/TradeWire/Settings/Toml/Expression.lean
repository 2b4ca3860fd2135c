import TradeWire.Settings.Toml.Word

/-! A settings document as a sequence of expressions: keys with values, and names of tables. -/

set_option autoImplicit false
set_option relaxedAutoImplicit false

namespace TradeWire.Toml

abbrev Path := List String

/-- A value. What is not in quotes is kept as it stands. -/
inductive Value where
  | text (s : String)
  | word (w : String)
  | list (items : List Value)
  | table (entries : List (Path × Value))
deriving Repr

/-- One line of a document, apart from values that take several. -/
inductive Expression where
  | entry (key : Path) (v : Value)
  | table (path : Path)
  | tables (path : Path)
deriving Repr

/-- Drop blanks, line ends and comments; every step takes a character at least. -/
def skipLines : Nat → List Char → Option (List Char)
  | 0, _ => none
  | fuel + 1, cs =>
    match skipSpaces cs with
    | '#' :: rest =>
      match comment rest with
      | none => none
      | some after => skipLines fuel after
    | other =>
      match newline? other with
      | some rest => skipLines fuel rest
      | none => some other

/-- Drop what may stand between the entries of a table in braces. -/
def skipInTable (d : Dialect) (cs : List Char) : Option (List Char) :=
  if d.tableLines then skipLines (cs.length + 1) cs else some (skipSpaces cs)

def keyPart (d : Dialect) (cs : List Char) : Read String :=
  match cs with
  | '"' :: _ => quotedText d cs
  | '\'' :: _ => quotedText d cs
  | _ =>
    let name := cs.takeWhile isBare
    if name.isEmpty then none else some (String.ofList name, cs.dropWhile isBare)

/-- The parts of a key, separated by points, and what follows the blanks behind them. -/
def keyPath (d : Dialect) : Nat → List Char → Read Path
  | 0, _ => none
  | fuel + 1, cs =>
    match keyPart d (skipSpaces cs) with
    | none => none
    | some (part, rest) =>
      match skipSpaces rest with
      | '.' :: after => (keyPath d fuel after).map fun (parts, after) => (part :: parts, after)
      | other => some ([part], other)

mutual

/-- Read a value; every step of `fuel` takes a character at least. -/
def value (d : Dialect) : Nat → List Char → Read Value
  | 0, _ => none
  | fuel + 1, cs =>
    match cs with
    | '"' :: _ => (valueText d cs).map fun (s, rest) => (.text s, rest)
    | '\'' :: _ => (valueText d cs).map fun (s, rest) => (.text s, rest)
    | '[' :: rest => (items d fuel rest).map fun (values, after) => (.list values, after)
    | '\x7b' :: rest => (fields d fuel true rest).map fun (entries, after) => (.table entries, after)
    | _ => (d.word cs).map fun (w, rest) => (.word w, rest)

/-- Read the values of a list up to its closing bracket. -/
def items (d : Dialect) : Nat → List Char → Read (List Value)
  | 0, _ => none
  | fuel + 1, cs =>
    match skipLines (cs.length + 1) cs with
    | none => none
    | some (']' :: rest) => some ([], rest)
    | some start =>
      match value d fuel start with
      | none => none
      | some (first, rest) =>
        match skipLines (rest.length + 1) rest with
        | some (',' :: after) => (items d fuel after).map fun (more, after) => (first :: more, after)
        | some (']' :: after) => some ([first], after)
        | _ => none

/-- Read the entries of a table up to its closing brace, which may stand here if `mayEnd`. -/
def fields (d : Dialect) : Nat → Bool → List Char → Read (List (Path × Value))
  | 0, _, _ => none
  | fuel + 1, mayEnd, cs =>
    match skipInTable d cs with
    | none => none
    | some ('\x7d' :: rest) => if mayEnd then some ([], rest) else none
    | some start =>
      match entry d fuel start with
      | none => none
      | some (first, rest) =>
        match skipInTable d rest with
        | some (',' :: after) =>
          (fields d fuel d.tableLines after).map fun (more, after) => (first :: more, after)
        | some ('\x7d' :: after) => some ([first], after)
        | _ => none

def entry (d : Dialect) : Nat → List Char → Read (Path × Value)
  | 0, _ => none
  | fuel + 1, cs =>
    match keyPath d (cs.length + 1) cs with
    | some (key, '=' :: rest) =>
      (value d fuel (skipSpaces rest)).map fun (v, after) => ((key, v), after)
    | _ => none

end

def expression (d : Dialect) (cs : List Char) : Read Expression :=
  match cs with
  | '[' :: '[' :: rest =>
    match keyPath d (rest.length + 1) rest with
    | some (path, ']' :: ']' :: after) => some (.tables path, after)
    | _ => none
  | '[' :: rest =>
    match keyPath d (rest.length + 1) rest with
    | some (path, ']' :: after) => some (.table path, after)
    | _ => none
  | _ => (entry d (cs.length + 2) cs).map fun ((key, v), after) => (.entry key v, after)

/-- Read lines in turn; every one takes a character at least. -/
def expressions (d : Dialect) : Nat → List Char → Option (List Expression)
  | _, [] => some []
  | 0, _ => none
  | fuel + 1, cs =>
    match endOfLine cs with
    | some rest => expressions d fuel rest
    | none =>
      match expression d (skipSpaces cs) with
      | none => none
      | some (e, after) =>
        match endOfLine after with
        | none => none
        | some rest => (expressions d fuel rest).map (e :: ·)

/-- Drop a byte order mark where the dialect takes one. -/
def dropMark (d : Dialect) : List Char → List Char
  | [] => []
  | c :: rest => if d.byteOrderMark && c.toNat == 0xfeff then rest else c :: rest

def document (d : Dialect) (s : String) : Option (List Expression) :=
  let cs := dropMark d s.toList
  expressions d (cs.length + 1) cs

/-- The proper initial parts of a path that are not empty. -/
def parents (path : Path) : List Path := (List.range path.length).tail.map fun n => path.take n

def isBelow (outer path : Path) : Bool := outer.length < path.length && outer.isPrefixOf path

/-- What a document says about a key at its top. -/
inductive Entry where
  | value (v : Value)
  /-- The key names a table. -/
  | table
  /-- The key names a table of a list of tables, the first of them or another one. -/
  | tables (isFirst : Bool)
deriving Repr

/-- What a document says about the keys at its top, in order. -/
abbrev Entries := List (String × Entry)

end TradeWire.Toml

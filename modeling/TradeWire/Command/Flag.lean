import TradeWire.Number.Literal
import TradeWire.Settings.Duration
import TradeWire.Text.Quoted

/-! Flags on a command line, mixed with its arguments; two dashes alone end the flags. -/

set_option autoImplicit false
set_option relaxedAutoImplicit false

namespace TradeWire.Command

inductive FlagKind where
  | text
  | int
  | duration
  | switch
deriving Repr, DecidableEq

/-- A flag of a command: its name, its letter where it has one, and what help says about it. -/
structure Flag where
  name : String
  letter : Option Char
  kind : FlagKind
  usage : String
  /-- What help shows as default. -/
  shown : Option String
deriving Repr, DecidableEq

inductive FlagError where
  | badForm (arg : String)
  | unknown (name : String)
  | needsValue (name : String)
  | unknownLetter (letter : Char) (letters : String)
  | letterNeedsValue (letter : Char) (letters : String)
  | invalidValue (value flag reason : String)
deriving Repr, DecidableEq

def FlagError.message : FlagError → String
  | badForm arg => "bad flag syntax: " ++ arg
  | unknown name => "unknown flag: --" ++ name
  | needsValue name => "flag needs an argument: --" ++ name
  | unknownLetter letter letters =>
    "unknown shorthand flag: " ++ Text.quoteChar letter ++ " in -" ++ letters
  | letterNeedsValue letter letters =>
    "flag needs an argument: " ++ Text.quoteChar letter ++ " in -" ++ letters
  | invalidValue value flag reason =>
    "invalid argument " ++ Text.quote value ++ " for " ++ Text.quote flag ++ " flag: " ++ reason

def Flag.display (f : Flag) : String :=
  match f.letter with
  | some c => "-" ++ String.ofList [c] ++ ", --" ++ f.name
  | none => "--" ++ f.name

/-- Flags that were given, in order, with their values. -/
abbrev Given := List (Flag × String)

/-- What was read of a command line: flags and arguments. -/
structure Parsed where
  given : Given
  args : List String
deriving Repr, DecidableEq

def Flag.check (f : Flag) (value : String) : Except FlagError (Flag × String) :=
  match f.kind with
  | .int =>
    match Literal.integer value with
    | .ok _ => .ok (f, value)
    | .error fault =>
      .error (.invalidValue value f.display
        ("strconv.ParseInt: parsing " ++ Text.quote value ++ ": " ++ fault.message))
  | .switch =>
    match Literal.truth? value with
    | some _ => .ok (f, value)
    | none =>
      .error (.invalidValue value f.display
        ("strconv.ParseBool: parsing " ++ Text.quote value ++ ": invalid syntax"))
  | .duration =>
    match Duration.parse value with
    | .ok _ => .ok (f, value)
    | .error fault => .error (.invalidValue value f.display fault.message)
  | .text => .ok (f, value)

def findName (flags : List Flag) (name : String) : Option Flag := flags.find? (·.name == name)

def findLetter (flags : List Flag) (c : Char) : Option Flag := flags.find? (·.letter == some c)

def splitEquals (cs : List Char) : String × Option String :=
  match cs.dropWhile (· != '=') with
  | [] => (String.ofList cs, none)
  | _ :: value => (String.ofList (cs.takeWhile (· != '=')), some (String.ofList value))

/-- Read a long flag, given without its dashes; the answer holds the arguments left. -/
def readLong (flags : List Flag) (body : List Char) (rest : List String) :
    Except FlagError ((Flag × String) × List String) :=
  let (name, value) := splitEquals body
  if name == "" || body.head? == some '-' then .error (.badForm (String.ofList ('-' :: '-' :: body)))
  else
    match findName flags name with
    | none => .error (.unknown name)
    | some f =>
      match value, f.kind, rest with
      | some v, _, _ => (f.check v).map (·, rest)
      | none, .switch, _ => (f.check "true").map (·, rest)
      | none, _, v :: rest => (f.check v).map (·, rest)
      | none, _, [] => .error (.needsValue name)

/-- The first byte of a character, as messages show it. -/
def leadByte (c : Char) : Char :=
  match Text.encodeUtf8 (String.ofList [c]) with
  | [] => c
  | b :: _ => Char.ofNat b.toNat

/-- Letters that start like this belong to a test runner. -/
def testMark : List Char := "test.".toList

/-- Read letters, given without their dash; the answer holds the arguments left. Letters for a test
runner are passed over. -/
def readLetters (flags : List Flag) : List Char → List String → Except FlagError (Given × List String)
  | [], rest => .ok ([], rest)
  | c :: letters, rest =>
    if testMark.isPrefixOf (c :: letters) then .ok ([], rest)
    else
      match findLetter flags c with
      | none => .error (.unknownLetter (leadByte c) (String.ofList (c :: letters)))
      | some f =>
        match letters, f.kind, rest with
        | '=' :: v :: value, _, _ => (f.check (String.ofList (v :: value))).map fun g => ([g], rest)
        | _, .switch, _ =>
          match f.check "true" with
          | .error fault => .error fault
          | .ok g => (readLetters flags letters rest).map fun (more, rest) => (g :: more, rest)
        | v :: value, _, _ => (f.check (String.ofList (v :: value))).map fun g => ([g], rest)
        | [], _, v :: rest => (f.check v).map fun g => ([g], rest)
        | [], _, [] => .error (.letterNeedsValue c (String.ofList [c]))

/-- Read flags and arguments; every step takes an argument at least. -/
def readArgs (flags : List Flag) : Nat → List String → Except FlagError Parsed
  | _, [] => .ok ⟨[], []⟩
  | 0, _ => .ok ⟨[], []⟩
  | fuel + 1, arg :: rest =>
    match arg.toList with
    | ['-', '-'] => .ok ⟨[], rest⟩
    | '-' :: '-' :: body =>
      match readLong flags body rest with
      | .error fault => .error fault
      | .ok (g, rest) => (readArgs flags fuel rest).map fun p => ⟨g :: p.given, p.args⟩
    | '-' :: c :: letters =>
      match readLetters flags (c :: letters) rest with
      | .error fault => .error fault
      | .ok (gs, rest) => (readArgs flags fuel rest).map fun p => ⟨gs ++ p.given, p.args⟩
    | _ => (readArgs flags fuel rest).map fun p => ⟨p.given, arg :: p.args⟩

def parseArgs (flags : List Flag) (args : List String) : Except FlagError Parsed :=
  readArgs flags args.length args

/-- The value of a flag; the last one counts. -/
def Parsed.value? (p : Parsed) (name : String) : Option String :=
  (p.given.reverse.find? fun (f, _) => f.name == name).map (·.2)

def Parsed.isOn (p : Parsed) (name : String) : Bool := ((p.value? name).bind Literal.truth?).getD false

end TradeWire.Command

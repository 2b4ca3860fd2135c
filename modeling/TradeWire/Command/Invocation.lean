import TradeWire.Command.Help

/-! A command line, read: which command is to run, with what input, or which help text is asked for. -/

set_option autoImplicit false
set_option relaxedAutoImplicit false

namespace TradeWire.Command

/-- Why a command line cannot be read. -/
inductive UsageError where
  | unknownCommand (word path : String) (suggested : List String)
  | flag (fault : FlagError)
  | wantsExactly (count received : Nat)
  | wantsAtMost (count received : Nat)
deriving Repr, DecidableEq

def UsageError.message : UsageError → String
  | unknownCommand word path suggested =>
    let hint :=
      if suggested.isEmpty then ""
      else "\n\nDid you mean this?\n" ++ String.join (suggested.map fun name => "\t" ++ name ++ "\n")
    "unknown command " ++ Text.quote word ++ " for " ++ Text.quote path ++ hint
  | flag fault => fault.message
  | wantsExactly count received =>
    "accepts " ++ toString count ++ " arg(s), received " ++ toString received
  | wantsAtMost count received =>
    "accepts at most " ++ toString count ++ " arg(s), received " ++ toString received

/-- Where a payload comes from: a file, or hexadecimal digits in arguments. -/
structure Input where
  file : String
  args : List String
deriving Repr, DecidableEq

inductive Action where
  | templates
  | layout (reference : String)
  | flows (template : Option String)
  | decode (input : Input) (offset : Int)
  | walk (input : Input) (quiet : Bool)
deriving Repr, DecidableEq

inductive Invocation where
  | help (text : String)
  | perform (schema : String) (action : Action)
  /-- A command that this tool does not carry out. -/
  | unsupported (command : String)
deriving Repr, DecidableEq

def Spec.checkArity (s : Spec) (args : List String) : Except UsageError Unit :=
  match s.arity with
  | .any => .ok ()
  | .none =>
    match args with
    | [] => .ok ()
    | word :: _ => .error (.unknownCommand word s.path [])
  | .exactly count => if args.length = count then .ok () else .error (.wantsExactly count args.length)
  | .atMost count => if args.length ≤ count then .ok () else .error (.wantsAtMost count args.length)

def Parsed.input (p : Parsed) : Input := ⟨(p.value? "file").getD "", p.args⟩

/-- The integer value of a flag, zero where it is not given. -/
def Parsed.int (p : Parsed) (name : String) : Int :=
  match Literal.integer ((p.value? name).getD "0") with
  | .ok n => n
  | .error _ => 0

/-- Help on the command that words name. -/
def helpOn (args : List String) : Invocation :=
  match select args with
  | (some spec, _) => .help spec.help
  | (none, _) =>
    if (words [schemaFlag] args).isEmpty then .help toolHelp
    else
      let topics := String.intercalate " " (args.map Text.quoteRaw)
      .help (joinLines (("Unknown help topic [" ++ topics ++ "]") :: toolUsage [schemaFlag]))

/-- What a command with its flags and arguments asks for. -/
def Spec.invocation (s : Spec) (p : Parsed) : Invocation :=
  let schema := (p.value? "schema").getD defaultSchema
  match s.name with
  | "templates" => .perform schema .templates
  | "layout" => .perform schema (.layout (p.args.headD ""))
  | "flows" => .perform schema (.flows p.args.head?)
  | "decode" => .perform schema (.decode p.input (p.int "offset"))
  | "walk" => .perform schema (.walk p.input (p.isOn "quiet"))
  | "help" => helpOn p.args
  | name => .unsupported name

/-- Read a command line. A flag that cannot be read comes before a request for help, and that before
the number of arguments. A command with commands below it only has help. -/
def Invocation.ofArgs (args : List String) : Except UsageError Invocation :=
  match select args with
  | (none, rest) =>
    match words [schemaFlag] rest with
    | word :: _ => .error (.unknownCommand word toolName (suggestions word))
    | [] =>
      match parseArgs [helpFlag toolName, schemaFlag] rest with
      | .error fault => .error (.flag fault)
      | .ok _ => .ok (.help toolHelp)
  | (some spec, rest) =>
    match parseArgs (helpFlag spec.name :: schemaFlag :: spec.flags) rest with
    | .error fault => .error (.flag fault)
    | .ok p =>
      if p.isOn "help" || !spec.children.isEmpty then .ok (.help spec.help)
      else
        match spec.checkArity p.args with
        | .error fault => .error fault
        | .ok () => .ok (spec.invocation p)

/-- The files that are read to carry out an invocation. -/
def Invocation.files : Invocation → List String
  | help _ => []
  | unsupported _ => []
  | perform schema (.decode input _) => [schema] ++ (if input.file == "" then [] else [input.file])
  | perform schema (.walk input _) => [schema] ++ (if input.file == "" then [] else [input.file])
  | perform schema _ => [schema]

end TradeWire.Command

import TradeWire.Command.Flag
import TradeWire.Text.LowerCase
import TradeWire.Text.Utf8

/-! The commands of the tool, selected by the first argument that is neither a flag nor the value of one. -/

set_option autoImplicit false
set_option relaxedAutoImplicit false

namespace TradeWire.Command

/-- How many arguments a command takes. -/
inductive Arity where
  | none
  | exactly (count : Nat)
  | atMost (count : Nat)
  | any
deriving Repr, DecidableEq

structure Spec where
  name : String
  /-- The name with the arguments, for help. -/
  use : String
  short : String
  /-- What help says instead of the short text. -/
  long : Option (List String) := none
  arity : Arity
  flags : List Flag
  /-- The command it belongs to. -/
  parent : Option String := none
deriving Repr, DecidableEq

def toolName : String := "eticodec"

def toolShort : String := "Inspect ETI schemas and decode or exchange ETI messages"

/-- The flag that names the schema document; every command takes it. -/
def schemaFlag : Flag := ⟨"schema", none, .text, "path to the ETI XML schema", some "\"eti.xml\""⟩

/-- The schema document that is used unless another is named. -/
def defaultSchema : String := "eti.xml"

def fileFlag : Flag := ⟨"file", some 'f', .text, "read the raw payload from a binary file", none⟩

def helpFlag (command : String) : Flag := ⟨"help", some 'h', .switch, "help for " ++ command, none⟩

def templatesSpec : Spec where
  name := "templates"
  use := "templates"
  short := "List message templates with their sizes"
  arity := .none
  flags := []

def layoutSpec : Spec where
  name := "layout"
  use := "layout <name|template-id>"
  short := "Show the run partition and field offsets of a structure"
  arity := .exactly 1
  flags := []

def flowsSpec : Spec where
  name := "flows"
  use := "flows [template-id]"
  short := "Print request/response flow trees"
  arity := .atMost 1
  flags := []

def decodeSpec : Spec where
  name := "decode"
  use := "decode [hex...]"
  short := "Decode one message from a raw payload"
  arity := .any
  flags := [fileFlag, ⟨"offset", none, .int, "byte offset of the message in the payload", none⟩]

def walkSpec : Spec where
  name := "walk"
  use := "walk [hex...]"
  short := "Decode every message of a payload holding several concatenated messages"
  arity := .any
  flags := [fileFlag, ⟨"quiet", some 'q', .switch, "print only the message summary lines", none⟩]

def sendSpec : Spec where
  name := "send"
  use := "send"
  short := "Log on to a session endpoint, send a demo order and print the responses"
  arity := .none
  flags := [
    ⟨"addr", none, .text, "session endpoint address", some "\"127.0.0.1:7171\""⟩,
    ⟨"config", none, .text, "client config file", none⟩,
    ⟨"retries", none, .int, "extra connection attempts while the endpoint is not up yet", none⟩,
    ⟨"wait", none, .duration, "how long to read responses after the last request", some "3s"⟩]

def helpSpec : Spec where
  name := "help"
  use := "help [command]"
  short := "Help about any command"
  long := some [
    "Help provides help for any command in the application.",
    "Simply type " ++ toolName ++ " help [path to command] for full details."]
  arity := .any
  flags := []

def completionSpec : Spec where
  name := "completion"
  use := "completion"
  short := "Generate the autocompletion script for the specified shell"
  long := some [
    "Generate the autocompletion script for " ++ toolName ++ " for the specified shell.",
    "See each sub-command's help for details on how to use the generated script."]
  arity := .none
  flags := []

/-- The flag that leaves descriptions out of a script. -/
def noDescriptionsFlag : Flag :=
  ⟨"no-descriptions", none, .switch, "disable completion descriptions", none⟩

def scriptCall (shell : String) : String := toolName ++ " " ++ completionSpec.name ++ " " ++ shell

/-- What is said about a script that is loaded in the current session. -/
def currentSession : String := "To load completions in your current shell session:"

/-- What is said about a script that is loaded in all sessions. -/
def everySession : String := "To load completions for every new session, execute once:"

/-- What is said about a script that needs a new session. -/
def newSession : String := "You will need to start a new shell for this setup to take effect."

def shellSpec (shell : String) (long : List String) : Spec where
  name := shell
  use := shell
  short := "Generate the autocompletion script for " ++ shell
  long := some long
  arity := .none
  flags := [noDescriptionsFlag]
  parent := some completionSpec.name

def bashSpec : Spec := shellSpec "bash" [
  "Generate the autocompletion script for the bash shell.", "",
  "This script depends on the 'bash-completion' package.",
  "If it is not installed already, you can install it via your OS's package manager.", "",
  currentSession, "",
  "\tsource <(" ++ scriptCall "bash" ++ ")", "",
  everySession, "",
  "#### Linux:", "",
  "\t" ++ scriptCall "bash" ++ " > /etc/bash_completion.d/" ++ toolName, "",
  "#### macOS:", "",
  "\t" ++ scriptCall "bash" ++ " > $(brew --prefix)/etc/bash_completion.d/" ++ toolName, "",
  newSession]

def fishSpec : Spec := shellSpec "fish" [
  "Generate the autocompletion script for the fish shell.", "",
  currentSession, "",
  "\t" ++ scriptCall "fish" ++ " | source", "",
  everySession, "",
  "\t" ++ scriptCall "fish" ++ " > ~/.config/fish/completions/" ++ toolName ++ ".fish", "",
  newSession]

def powershellSpec : Spec := shellSpec "powershell" [
  "Generate the autocompletion script for powershell.", "",
  currentSession, "",
  "\t" ++ scriptCall "powershell" ++ " | Out-String | Invoke-Expression", "",
  "To load completions for every new session, add the output of the above command",
  "to your powershell profile."]

def zshSpec : Spec := shellSpec "zsh" [
  "Generate the autocompletion script for the zsh shell.", "",
  "If shell completion is not already enabled in your environment you will need",
  "to enable it.  You can execute the following once:", "",
  "\techo \"autoload -U compinit; compinit\" >> ~/.zshrc", "",
  currentSession, "",
  "\tsource <(" ++ scriptCall "zsh" ++ "); compdef _" ++ toolName ++ " " ++ toolName, "",
  everySession, "",
  "#### Linux:", "",
  "\t" ++ scriptCall "zsh" ++ " > \"$\x7bfpath[1]\x7d/_" ++ toolName ++ "\"", "",
  "#### macOS:", "",
  "\t" ++ scriptCall "zsh" ++ " > $(brew --prefix)/share/zsh/site-functions/_" ++ toolName, "",
  newSession]

def specs : List Spec := [
  templatesSpec, layoutSpec, flowsSpec, decodeSpec, walkSpec, sendSpec, helpSpec, completionSpec]

def Spec.children (s : Spec) : List Spec :=
  [bashSpec, fishSpec, powershellSpec, zshSpec].filter (·.parent == some s.name)

def Spec.path (s : Spec) : String := String.intercalate " " (toolName :: s.parent.toList ++ [s.name])

/-- Whether an argument is a flag whose value is the next argument. -/
def takesNext (flags : List Flag) (arg : String) : Bool :=
  match arg.toList with
  | '-' :: '-' :: name =>
    !name.contains '=' && !((findName flags (String.ofList name)).any (·.kind == .switch))
  | ['-', c] => c.toNat < 0x80 && c != '=' && !((findLetter flags c).any (·.kind == .switch))
  | _ => false

def isDashed (arg : String) : Bool := arg.toList.head? == some '-'

/-- The arguments that are neither flags nor their values. A flag that takes the last argument ends the
search. -/
def words (flags : List Flag) : List String → List String
  | [] => []
  | [arg] =>
    if arg == "--" || takesNext flags arg || arg == "" || isDashed arg then [] else [arg]
  | arg :: next :: rest =>
    if arg == "--" then []
    else if takesNext flags arg then
      if rest.isEmpty then [] else words flags rest
    else if arg != "" && !isDashed arg then arg :: words flags (next :: rest)
    else words flags (next :: rest)

/-- Leave out the first argument that is a certain word. -/
def dropWord (flags : List Flag) (word : String) : List String → List String
  | [] => []
  | [arg] => if arg == word && !isDashed arg then [] else [arg]
  | arg :: next :: rest =>
    if arg == "--" then arg :: next :: rest
    else if takesNext flags arg then arg :: next :: dropWord flags word rest
    else if arg == word && !isDashed arg then next :: rest
    else arg :: dropWord flags word (next :: rest)

/-- One row of the table of edit distances: the distances of `a :: done` from the initial parts of
`other`, from the row of `done`. -/
def nextRow (a : UInt8) : Nat → Nat → Bytes → List Nat → List Nat
  | left, diagonal, b :: other, up :: row =>
    let cost := if a == b then diagonal else 1 + min (min left up) diagonal
    cost :: nextRow a cost up other row
  | _, _, _, _ => []

/-- The number of insertions, deletions and replacements that lead from one text to another. -/
def editDistance (s other : Bytes) : Nat :=
  let first := List.range (other.length + 1)
  let last := s.foldl
    (fun row a =>
      match row with
      | [] => []
      | up :: rest => (up + 1) :: nextRow a (up + 1) up other rest)
    first
  (last.getLast?).getD 0

/-- The largest distance at which a name is still suggested. -/
def suggestionDistance : Nat := 2

/-- Whether a command is suggested for a word that names none. -/
def isSuggested (word name : String) : Bool :=
  let typed := Text.encodeUtf8 (Text.lower word)
  let wanted := Text.encodeUtf8 name
  editDistance typed wanted ≤ suggestionDistance || typed.isPrefixOf wanted

/-- The commands suggested for a word that names none; help is not among them. -/
def suggestions (word : String) : List String :=
  ((specs.filter (·.name != "help")).map (·.name)).filter (isSuggested word)

/-- The command among some that the first word of a command line names, with the arguments left. -/
def selectAmong (candidates : List Spec) (args : List String) : Option (Spec × List String) :=
  match words [schemaFlag] args with
  | [] => none
  | word :: _ => (candidates.find? (·.name == word)).map fun spec => (spec, dropWord [schemaFlag] word args)

/-- The command a command line selects, with the arguments left for it; `none` is the tool itself. -/
def select (args : List String) : Option Spec × List String :=
  match selectAmong specs args with
  | none => (none, args)
  | some (spec, rest) =>
    match selectAmong spec.children rest with
    | none => (some spec, rest)
    | some (child, rest) => (some child, rest)

end TradeWire.Command

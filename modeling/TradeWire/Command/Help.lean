import TradeWire.Command.Spec

/-! Help texts: what a command is for, how it is called and which flags it takes. -/

set_option autoImplicit false
set_option relaxedAutoImplicit false

namespace TradeWire.Command

def FlagKind.word : FlagKind → String
  | text => "string"
  | int => "int"
  | duration => "duration"
  | switch => ""

def Flag.front (f : Flag) : String :=
  let name := match f.letter with
    | some c => "  -" ++ String.ofList [c] ++ ", --" ++ f.name
    | none => "      --" ++ f.name
  if f.kind == .switch then name else name ++ " " ++ f.kind.word

/-- The help lines of flags, by ascending name; what they are for stands in one column. -/
def flagLines (flags : List Flag) : List String :=
  let sorted := flags.mergeSort fun a b => (compare a.name b.name).isLE
  let width := sorted.foldl (fun width f => max width f.front.length) 0
  sorted.map fun f =>
    let gap := String.ofList (List.replicate (width - f.front.length + 3) ' ')
    let shown := match f.shown with
      | some text => " (default " ++ text ++ ")"
      | none => ""
    f.front ++ gap ++ f.usage ++ shown

def nameWidth : Nat := 11

def Spec.helpLine (s : Spec) : String :=
  "  " ++ s.name ++ String.ofList (List.replicate (nameWidth - s.name.length) ' ') ++ " " ++ s.short

def commandLines (commands : List Spec) : List String :=
  (commands.mergeSort fun a b => (compare a.name b.name).isLE).map Spec.helpLine

def familyUsage (path : String) (commands : List Spec) (flags : List String) : List String :=
  ["Usage:", "  " ++ path ++ " [command]", "", "Available Commands:"] ++ commandLines commands ++
    ["", "Flags:"] ++ flags ++
    ["", "Use \"" ++ path ++ " [command] --help\" for more information about a command."]

def toolUsage (flags : List Flag) : List String := familyUsage toolName specs (flagLines flags)

/-- The flags of a command, and then those of every command. -/
def Spec.allFlagLines (s : Spec) : List String :=
  flagLines (helpFlag s.name :: s.flags) ++ ["", "Global Flags:"] ++ flagLines [schemaFlag]

/-- How a command is called. A command that belongs to another one does not mention its flags first. -/
def Spec.usage (s : Spec) : List String :=
  if s.children.isEmpty then
    let call := match s.parent with
      | none => toolName ++ " " ++ s.use ++ " [flags]"
      | some _ => s.path
    ["Usage:", "  " ++ call, "", "Flags:"] ++ s.allFlagLines
  else familyUsage s.path s.children s.allFlagLines

def joinLines (lines : List String) : String := String.join (lines.map (· ++ "\n"))

def toolHelp : String := joinLines ([toolShort, ""] ++ toolUsage [helpFlag toolName, schemaFlag])

def Spec.help (s : Spec) : String := joinLines (s.long.getD [s.short] ++ [""] ++ s.usage)

end TradeWire.Command

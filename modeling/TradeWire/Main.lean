import TradeWire.Command.Run

/-! The command line tool: it reads the named files, carries out the command and reports failures. -/

set_option autoImplicit false
set_option relaxedAutoImplicit false

namespace TradeWire.Main

/-- The code by which the system says that a path leads through a file. -/
def throughFileCode : UInt32 := 20

/-- The code by which the system says that a directory cannot be read like a file. -/
def directoryCode : UInt32 := 21

def storedOfCode (code : UInt32) : Except Command.PathFault Command.Stored :=
  if code == directoryCode then .ok .directory
  else if code == throughFileCode then .error .throughFile
  else .error .missing

def readPath (path : String) : IO (Except Command.PathFault Command.Stored) := do
  try
    let data ← IO.FS.readBinFile path
    return .ok (.file data.toList)
  catch
    | .inappropriateType _ code _ => return storedOfCode code
    | _ => return .error .missing

def readPaths : List String → IO (List (String × Except Command.PathFault Command.Stored))
  | [] => return []
  | path :: rest => do
    let stored ← readPath path
    let more ← readPaths rest
    return (path, stored) :: more

def report (outcome : Command.Outcome) : IO UInt32 := do
  IO.print outcome.out
  match outcome.failure with
  | none => return 0
  | some failure =>
    IO.eprintln (Command.toolName ++ ": " ++ failure.message)
    return 1

end TradeWire.Main

def main (args : List String) : IO UInt32 := do
  match TradeWire.Command.Invocation.ofArgs args with
  | .error fault => TradeWire.Main.report ⟨"", some (.usage fault)⟩
  | .ok invocation =>
    let known ← TradeWire.Main.readPaths invocation.files
    TradeWire.Main.report (invocation.run fun path => (known.lookup path).getD (.error .missing))

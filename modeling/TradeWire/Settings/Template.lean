import TradeWire.Text.Blank
import TradeWire.Text.LowerCase

/-! Settings files to start from. -/

set_option autoImplicit false
set_option relaxedAutoImplicit false

namespace TradeWire.Settings

def serverTemplate : String :=
  "listen_addr = \"127.0.0.1:7171\"\n" ++
  "admin_addr = \"127.0.0.1:7172\"\n" ++
  "cors_origins = [\"http://localhost:3000\"]\n" ++
  "schema = \"eti.xml\"\n" ++
  "policy = \"random\"\n" ++
  "# reject_nth_logon = 1\n" ++
  "reject_text = \"You cannot logon until you have payed your bills!\"\n" ++
  "seed = 0\n" ++
  "read_timeout = \"0s\"\n" ++
  "write_timeout = \"5s\"\n" ++
  "max_frame_bytes = 65536\n"

def clientTemplate : String :=
  "addr = \"127.0.0.1:7171\"\n" ++
  "schema = \"eti.xml\"\n" ++
  "timeout = \"3s\"\n"

inductive TemplateFault where
  | unknownKind (kind : String)
  | alreadyThere (path : String)
deriving Repr, DecidableEq

def TemplateFault.message : TemplateFault → String
  | unknownKind kind => "unknown config kind: " ++ kind
  | alreadyThere path => "config already exists: " ++ path

/-- The template of a kind, whatever its case and the blanks around it. -/
def templateOf (kind : String) : Except TemplateFault String :=
  match Text.lower (Text.trim kind) with
  | "sim" => .ok serverTemplate
  | "client" => .ok clientTemplate
  | _ => .error (.unknownKind kind)

/-- What a file holds after a template was written to it; a file that exists is replaced on demand
only. -/
def writeTemplate (path kind : String) (overwrite : Bool) (existing : Option String) :
    Except TemplateFault String :=
  match templateOf kind with
  | .error fault => .error fault
  | .ok template => if existing.isSome && !overwrite then .error (.alreadyThere path) else .ok template

end TradeWire.Settings

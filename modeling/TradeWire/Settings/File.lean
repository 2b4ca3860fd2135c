import TradeWire.Settings.Toml.Selective
import TradeWire.Settings.Toml.Thorough
import TradeWire.Text.LowerCase

/-! The settings a file may hold, each of them present or not. -/

set_option autoImplicit false
set_option relaxedAutoImplicit false

namespace TradeWire.Settings

/-- What reads the settings of a document; a document that it refuses has none. -/
abbrev Reader (α : Type) := String → Option α

/-- The settings of a server as a file gives them. -/
structure ServerFile where
  listenAddr : Option String
  adminAddr : Option String
  corsOrigins : Option (List String)
  schema : Option String
  policy : Option String
  rejectNthLogon : Option Int
  rejectText : Option String
  seed : Option Int
  readTimeout : Option String
  writeTimeout : Option String
  maxFrameBytes : Option Nat
deriving Repr, DecidableEq

/-- The settings of a client as a file gives them. -/
structure ClientFile where
  addr : Option String
  schema : Option String
  timeout : Option String
deriving Repr, DecidableEq

/-- How the entries under one key become a setting: a value replaces what was there, a table or a list
of tables may change it. -/
structure Taking (α : Type) where
  value : Toml.Value → Option α
  table : Option α → Option α
  tables : Bool → Option α → Option α

namespace Taking

variable {α : Type}

def entry (t : Taking α) (old : Option α) : Toml.Entry → Option α
  | .value v => t.value v
  | .table => t.table old
  | .tables isFirst => t.tables isFirst old

/-- Take entries in turn; each must be of the wanted kind. -/
def all (t : Taking α) (old : Option α) : List Toml.Entry → Option (Option α)
  | [] => some old
  | e :: rest => (t.entry old e).bind fun new => t.all (some new) rest

def valuesOnly (read : Toml.Value → Option α) : Taking α := ⟨read, fun _ => none, fun _ _ => none⟩

/-- Values, or a table without entries, which leaves a setting as it is and fills one that was not
given. -/
def orTable (blank : α) (read : Toml.Value → Option α) : Taking α :=
  ⟨read, fun old => some (old.getD blank), fun _ _ => none⟩

end Taking

def text? : Toml.Value → Option String
  | .text s => some s
  | _ => none

def integer? : Toml.Value → Option Int
  | .word w => Toml.integer? w.toList
  | _ => none

/-- A whole number of 32 bits. -/
def word? (v : Toml.Value) : Option Nat :=
  ((integer? v).filter fun n => 0 ≤ n && n < 0x100000000).map Int.toNat

def texts? : Toml.Value → Option (List String)
  | .list items => items.mapM text?
  | _ => none

/-- A list of texts that tables may lengthen: each table of a list of tables adds an empty text, the
first one to an empty list, and a single table needs a text to stand for. -/
def textsOrTables : Taking (List String) where
  value := texts?
  table := fun old => old.filter (!·.isEmpty)
  tables := fun isFirst old => some (if isFirst then [""] else old.getD [] ++ [""])

/-- How settings of each kind are taken. -/
structure Takings where
  text : Taking String
  integer : Taking Int
  word : Taking Nat
  texts : Taking (List String)

/-- Settings are values. -/
def Takings.strict : Takings :=
  ⟨.valuesOnly text?, .valuesOnly integer?, .valuesOnly word?, .valuesOnly texts?⟩

/-- Settings are values or names of tables without entries. -/
def Takings.lenient : Takings :=
  ⟨.orTable "" text?, .orTable 0 integer?, .orTable 0 word?, textsOrTables⟩

/-- The entries under a key, in order, by a comparison of keys. -/
def entriesUnder (same : String → String → Bool) (entries : Toml.Entries) (key : String) :
    List Toml.Entry :=
  (entries.filter fun entry => same entry.1 key).map (·.2)

def serverKeys : List String := [
  "listen_addr", "admin_addr", "cors_origins", "schema", "policy", "reject_nth_logon", "reject_text",
  "seed", "read_timeout", "write_timeout", "max_frame_bytes"]

def clientKeys : List String := ["addr", "schema", "timeout"]

/-- Read the settings of a server; an entry of another kind is refused. -/
def ServerFile.ofEntries (takings : Takings) (same : String → String → Bool) (entries : Toml.Entries) :
    Option ServerFile := do
  let find {α : Type} (t : Taking α) (key : String) : Option (Option α) :=
    t.all none (entriesUnder same entries key)
  let listenAddr ← find takings.text "listen_addr"
  let adminAddr ← find takings.text "admin_addr"
  let corsOrigins ← find takings.texts "cors_origins"
  let schema ← find takings.text "schema"
  let policy ← find takings.text "policy"
  let rejectNthLogon ← find takings.integer "reject_nth_logon"
  let rejectText ← find takings.text "reject_text"
  let seed ← find takings.integer "seed"
  let readTimeout ← find takings.text "read_timeout"
  let writeTimeout ← find takings.text "write_timeout"
  let maxFrameBytes ← find takings.word "max_frame_bytes"
  return ⟨listenAddr, adminAddr, corsOrigins, schema, policy, rejectNthLogon, rejectText, seed, readTimeout,
    writeTimeout, maxFrameBytes⟩

def ClientFile.ofEntries (takings : Takings) (same : String → String → Bool) (entries : Toml.Entries) :
    Option ClientFile := do
  let find (key : String) : Option (Option String) := takings.text.all none (entriesUnder same entries key)
  let addr ← find "addr"
  let schema ← find "schema"
  let timeout ← find "timeout"
  return ⟨addr, schema, timeout⟩

/-- A key in lower case is the name of the setting. -/
def sameInLowerCase (key name : String) : Bool := Text.lower key == name

/-! ## Readers -/

def ServerFile.selective : Reader ServerFile := fun document =>
  (Toml.Selective.parse (fun key => serverKeys.any (sameInLowerCase key ·)) document).bind
    (ofEntries .lenient sameInLowerCase)

def ClientFile.selective : Reader ClientFile := fun document =>
  (Toml.Selective.parse (fun key => clientKeys.any (sameInLowerCase key ·)) document).bind
    (ofEntries .lenient sameInLowerCase)

/-- Read everything. A key whose name is a setting up to case must hold a value of its kind, but only keys in
lower case count. -/
def ServerFile.thorough : Reader ServerFile := fun document =>
  match Toml.Thorough.parse document with
  | none => none
  | some entries =>
    match ofEntries .strict Text.spells entries, ofEntries .strict (· == ·) entries with
    | some _, some f => some f
    | _, _ => none

end TradeWire.Settings

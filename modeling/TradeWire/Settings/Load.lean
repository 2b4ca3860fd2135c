import TradeWire.Session.Options
import TradeWire.Settings.Duration
import TradeWire.Settings.File

/-! From settings files to options, by strict settings or by an overlay of the options a file names. -/

set_option autoImplicit false
set_option relaxedAutoImplicit false

namespace TradeWire.Settings

inductive Fault where
  | noFile
  | malformed
  | missing (owner key : String)
  | policyInvalid (word : String)
  | unknownPolicy (word : String)
  | durationInvalid (key : String) (fault : Duration.Fault)
  | durationUnparsed (key : String) (fault : Duration.Fault)
  | duration (fault : Duration.Fault)
  | frameBytesTooSmall (bytes : Nat)
deriving Repr, DecidableEq

/-- The complete message; what is wrong with a file as such is not told in words. -/
def Fault.message : Fault → String
  | noFile => ""
  | malformed => ""
  | missing owner key => owner ++ " config missing " ++ key
  | policyInvalid word => "sim config policy invalid: " ++ Flow.Policy.unknownMessage word
  | unknownPolicy word => Flow.Policy.unknownMessage word
  | durationInvalid key fault => key ++ " invalid: " ++ fault.message
  | durationUnparsed key fault => "parse " ++ key ++ ": " ++ fault.message
  | duration fault => fault.message
  | frameBytesTooSmall bytes => "sim config max_frame_bytes too small: " ++ toString bytes

def readDocument {α : Type} (read : Reader α) : Option String → Except Fault α
  | none => .error .noFile
  | some document =>
    match read document with
    | none => .error .malformed
    | some settings => .ok settings

/-- A setting that is absent or blank needs no check; any other must be a length of time. -/
def checkDuration (key text : String) : Except Fault Unit :=
  if Text.trim text == "" then .ok ()
  else
    match Duration.parse (Text.trim text) with
    | .error fault => .error (.durationInvalid key fault)
    | .ok _ => .ok ()

/-- The settings of a server with nothing left open; an empty text was not given. -/
structure Server where
  listenAddr : String
  adminAddr : String
  corsOrigins : List String
  schema : String
  policy : String
  rejectNthLogon : Option Int
  rejectText : String
  seed : Int
  readTimeout : String
  writeTimeout : String
  maxFrameBytes : Nat
deriving Repr, DecidableEq

namespace Server

/-- Fill in the address and the policy where a file gives none. -/
def ofFile (f : ServerFile) : Server where
  listenAddr := if f.listenAddr.getD "" == "" then ServerOptions.defaultListenAddr else f.listenAddr.getD ""
  adminAddr := f.adminAddr.getD ""
  corsOrigins := f.corsOrigins.getD []
  schema := f.schema.getD ""
  policy := if f.policy.getD "" == "" then Flow.Policy.random.word else f.policy.getD ""
  rejectNthLogon := f.rejectNthLogon
  rejectText := f.rejectText.getD ""
  seed := f.seed.getD 0
  readTimeout := f.readTimeout.getD ""
  writeTimeout := f.writeTimeout.getD ""
  maxFrameBytes := f.maxFrameBytes.getD 0

/-- The least frame limit that makes sense. -/
def leastFrameBytes : Nat := 8

def validate (s : Server) : Except Fault Unit := do
  if Text.trim s.listenAddr == "" then throw (.missing "sim" "listen_addr")
  if Text.trim s.schema == "" then throw (.missing "sim" "schema")
  if (Flow.Policy.ofWord? s.policy).isNone then throw (.policyInvalid s.policy)
  checkDuration "read_timeout" s.readTimeout
  checkDuration "write_timeout" s.writeTimeout
  if s.maxFrameBytes != 0 && s.maxFrameBytes < leastFrameBytes then
    throw (.frameBytesTooSmall s.maxFrameBytes)

def load (read : Reader ServerFile) (document : Option String) : Except Fault Server := do
  let f ← readDocument read document
  let s := ofFile f
  s.validate
  return s

/-- A length of time where a text is given, else `unset`. -/
def timeOr (unset : Int) (text : String) : Except Fault Int :=
  if text == "" then .ok unset
  else
    match Duration.parse (Text.trim text) with
    | .error fault => .error (.duration fault)
    | .ok n => .ok n

def options (s : Server) : Except Fault ServerOptions := do
  let base := ServerOptions.default
  match Flow.Policy.ofWord? s.policy with
  | none => throw (.unknownPolicy s.policy)
  | some policy =>
    let readTimeout ← timeOr base.readTimeout s.readTimeout
    let writeTimeout ← timeOr base.writeTimeout s.writeTimeout
    return {
      listenAddr := Text.trim s.listenAddr
      adminAddr := Text.trim s.adminAddr
      corsOrigins := if s.corsOrigins.isEmpty then base.corsOrigins else s.corsOrigins
      schemaPath := Text.trim s.schema
      policy := some policy
      rejectNthLogon := s.rejectNthLogon.getD base.rejectNthLogon
      rejectText := if s.rejectText == "" then base.rejectText else s.rejectText
      seed := s.seed
      readTimeout, writeTimeout
      maxFrameBytes := if s.maxFrameBytes == 0 then base.maxFrameBytes else s.maxFrameBytes }

end Server

def policyOf (word : String) : Except Fault Flow.Policy :=
  match Flow.Policy.ofWord? word with
  | none => .error (.unknownPolicy word)
  | some policy => .ok policy

/-- The length of time under a key, or `unset` where the file does not name it. -/
def overlayTime (key : String) (unset : Int) : Option String → Except Fault Int
  | none => .ok unset
  | some text =>
    match Duration.parse (Text.trim text) with
    | .error fault => .error (.durationUnparsed key fault)
    | .ok n => .ok n

def overlay (base : ServerOptions) (f : ServerFile) : Except Fault ServerOptions := do
  let policy ← match f.policy with
    | none => pure base.policy
    | some word => (policyOf word).map some
  let readTimeout ← overlayTime "read_timeout" base.readTimeout f.readTimeout
  let writeTimeout ← overlayTime "write_timeout" base.writeTimeout f.writeTimeout
  return {
    listenAddr := (f.listenAddr.map Text.trim).getD base.listenAddr
    adminAddr := (f.adminAddr.map Text.trim).getD base.adminAddr
    corsOrigins := f.corsOrigins.getD base.corsOrigins
    schemaPath := (f.schema.map Text.trim).getD base.schemaPath
    policy
    rejectNthLogon := f.rejectNthLogon.getD base.rejectNthLogon
    rejectText := f.rejectText.getD base.rejectText
    seed := f.seed.getD base.seed
    readTimeout, writeTimeout
    maxFrameBytes := f.maxFrameBytes.getD base.maxFrameBytes }

def loadOverlay (read : Reader ServerFile) (document : String) : Except Fault ServerOptions := do
  let f ← readDocument read (some document)
  overlay .default f

/-- Options given on the command line. -/
structure ServerFlags where
  listen : Option String
  admin : Option String
  schema : Option String
  policy : Option String
  rejectNthLogon : Option Int
  seed : Option Int
deriving Repr, DecidableEq

def ServerFlags.apply (f : ServerFlags) (base : ServerOptions) : Except Fault ServerOptions := do
  let policy ← match f.policy with
    | none => pure base.policy
    | some word => (policyOf word).map some
  return { base with
    listenAddr := f.listen.getD base.listenAddr
    adminAddr := f.admin.getD base.adminAddr
    schemaPath := f.schema.getD base.schemaPath
    policy
    rejectNthLogon := f.rejectNthLogon.getD base.rejectNthLogon
    seed := f.seed.getD base.seed }

/-- Defaults, then a settings document where there is one, then flags. -/
def resolve (read : Reader ServerFile) (document : Option String) (flags : ServerFlags) :
    Except Fault ServerOptions := do
  let base ← match document with
    | none => pure ServerOptions.default
    | some document => loadOverlay read document
  flags.apply base

structure Client where
  addr : String
  schema : String
  timeout : String
deriving Repr, DecidableEq

namespace Client

def ofFile (f : ClientFile) : Client where
  addr := if f.addr.getD "" == "" then ServerOptions.defaultListenAddr else f.addr.getD ""
  schema := f.schema.getD ""
  timeout := f.timeout.getD ""

def validate (c : Client) : Except Fault Unit := do
  if Text.trim c.addr == "" then throw (.missing "client" "addr")
  if Text.trim c.schema == "" then throw (.missing "client" "schema")
  checkDuration "timeout" c.timeout

def load (read : Reader ClientFile) (document : Option String) : Except Fault Client := do
  let f ← readDocument read document
  let c := ofFile f
  c.validate
  return c

/-- How long to wait for a connection; a length that is not positive does not count. -/
def dialTimeout (c : Client) (unset : Int) : Int :=
  match Duration.parse (Text.trim c.timeout) with
  | .error _ => unset
  | .ok n => if n ≤ 0 then unset else n

end Client

end TradeWire.Settings

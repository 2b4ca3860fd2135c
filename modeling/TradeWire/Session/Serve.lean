import TradeWire.Logging.Settings
import TradeWire.Protocol.Validate
import TradeWire.Record.Dump
import TradeWire.Session.Options
import TradeWire.Session.Outgoing

/-! The server side of a session: it drops frames it cannot decode and answers each request along its flow. -/

set_option autoImplicit false
set_option relaxedAutoImplicit false

namespace TradeWire

/-- Why a session ended before its peer closed the stream. -/
inductive SessionError where
  | frame (fault : Frame.Fault)
  | dispatch (fault : DispatchError)
  | unknownMessage (name : String)
  | field (fault : FieldError)
  | pack (fault : PackError)
deriving Repr, DecidableEq

def SessionError.message : SessionError → String
  | frame fault => fault.message
  | dispatch fault => fault.message
  | unknownMessage name => Registry.unknownNameMessage name
  | field fault => fault.message
  | pack fault => fault.message

def SessionError.ofSend : SendError → SessionError
  | .pack fault => .pack fault
  | .frame fault => .frame fault

namespace Session

open Logging

/-- What a session tells about itself. -/
inductive Event where
  | opened (active : Nat)
  | dropped (bytes : Nat) (fault : DispatchError)
  | received (template : String) (sequence : Option UInt64)
  /-- The text of the request just received. -/
  | content (text : String)
  | incomplete (template : String) (fault : ValidationError)
  | noFlow (template : String)
  | sent (template : String) (bytes : Int)
  | rejected
  | failed (fault : SessionError)
  | closed (active : Nat)
deriving Repr

namespace Event

def level : Event → Level
  | content _ | noFlow _ => .debug
  | dropped .. | incomplete .. | failed _ => .warn
  | _ => .info

def message : Event → String
  | opened _ => "session opened"
  | dropped .. => "dropping undecodable message"
  | received .. => "received"
  | content text => text
  | incomplete .. => "request incomplete"
  | noFlow _ => "no response flow"
  | sent .. => "sent response"
  | rejected => "rejected session, connection closed"
  | failed _ => "session ended"
  | closed _ => "session closed"

end Event

/-- The state of a session: the next sequence number, the frames written and the events so far, and
the sending times and random draws still to be used. -/
structure State where
  sequence : UInt64
  written : List Bytes
  events : List Event
  times : List UInt64
  draws : List Flow.Draws

def State.start (times : List UInt64) (draws : List Flow.Draws) : State := ⟨1, [], [], times, draws⟩

def State.tell (s : State) (e : Event) : State := { s with events := s.events ++ [e] }

/-- Stamp a message with sequence number and sending time and write its frame. The number counts as
used as soon as it is stamped. -/
def send (limit : Nat) (r : Record) (s : State) : State × Except SendError Record :=
  let (stamped, sequence) := match r.stampSequence? s.sequence with
    | some stamped => (stamped, s.sequence + 1)
    | none => (r, s.sequence)
  let ready := (stamped.stampTime (s.times.headD 0)).settled
  let s := { s with sequence := sequence, times := s.times.tail }
  match ready.frame limit with
  | .error fault => (s, .error fault)
  | .ok bytes =>
    ({ s with written := s.written ++ [bytes] }.tell (.sent ready.name ready.encodedSize), .ok ready)

/-- Answer with a fresh message that takes over fields of the one before. -/
def emit (registry : Registry) (limit : Nat) : Flow.Emitter State SessionError :=
  fun response previous s =>
    match registry.newRecord response.templateId with
    | .error fault => (s, .error (.dispatch fault))
    | .ok fresh =>
      match send limit (fresh.echo previous) s with
      | (s, .error fault) => (s, .error (.ofSend fault))
      | (s, .ok sent) => (s, .ok (some sent))

def rejectRecord (registry : Registry) (text : String) : Except SessionError Record :=
  match registry.lookupName? "Reject" with
  | none => .error (.unknownMessage "Reject")
  | some l =>
    match (Record.new l).setEnum "SessionRejectReason" "Other" with
    | .error fault => .error (.field fault)
    | .ok r =>
      match r.setText "VarText" text with
      | .error fault => .error (.field fault)
      | .ok r => .ok r

/-- Decode a frame; one that cannot be decoded is dropped. -/
def receive (p : Protocol) (bytes : Bytes) (s : State) : State × Option Record :=
  match p.registry.unpack bytes 0 with
  | .error fault => (s.tell (.dropped bytes.length fault), none)
  | .ok (request, _) =>
    let request := request.trim
    let s := (s.tell (.received request.name request.sequence?)).tell (.content request.format)
    match p.validate request with
    | .error fault => (s.tell (.incomplete request.name fault), some request)
    | .ok () => (s, some request)

inductive Progress where
  | live
  | over (outcome : Except SessionError Unit)

def reject (p : Protocol) (o : ServerOptions) (s : State) : State × Progress :=
  match rejectRecord p.registry o.rejectText with
  | .error fault => (s, .over (.error fault))
  | .ok r =>
    match send o.maxFrameBytes r s with
    | (s, .error fault) => (s, .over (.error (.ofSend fault)))
    | (s, .ok _) => (s.tell .rejected, .over (.ok ()))

def respond (p : Protocol) (o : ServerOptions) (request : Record) (s : State) : State × Progress :=
  match p.flows.responsesTo? request.layout.templateId with
  | none => (s.tell (.noFlow request.name), .live)
  | some nodes =>
    let policy := o.policy.getD .random
    let draws := s.draws.headD []
    let s := { s with draws := s.draws.tail }
    match Flow.run policy (emit p.registry o.maxFrameBytes) nodes request draws s with
    | (s, .ok ()) => (s, .live)
    | (s, .error (.condition fault)) => (s, .over (.error (.field fault)))
    | (s, .error (.emit fault)) => (s, .over (.error fault))

/-- Handle one frame of session number `logon`. -/
def step (p : Protocol) (o : ServerOptions) (logon : Nat) (bytes : Bytes) (s : State) : State × Progress :=
  match receive p bytes s with
  | (s, none) => (s, .live)
  | (s, some request) =>
    if (logon : Int) = o.rejectNthLogon then reject p o s else respond p o request s

/-- Handle frames in turn, up to the end of the session. -/
def stepAll (p : Protocol) (o : ServerOptions) (logon : Nat) : List Bytes → State → State × Progress
  | [], s => (s, .live)
  | bytes :: rest, s =>
    match step p o logon bytes s with
    | (s, .live) => stepAll p o logon rest s
    | (s, .over outcome) => (s, .over outcome)

-- The generated equation of `stepAll` is proved by evaluating `step`; this one is not.
theorem stepAll_cons (p : Protocol) (o : ServerOptions) (logon : Nat) (bytes : Bytes) (rest : List Bytes)
    (s : State) :
    stepAll p o logon (bytes :: rest) s =
      match step p o logon bytes s with
      | (s, .live) => stepAll p o logon rest s
      | (s, .over outcome) => (s, .over outcome) := Eq.refl _

/-- The outcome of a session whose frames are all handled, by the fault that ended reading. -/
def outcomeOf : Frame.Fault → Except SessionError Unit
  | .ended => .ok ()
  | fault => .error (.frame fault)

/-- Serve a peer that sends `stream` and closes. -/
def serve (p : Protocol) (o : ServerOptions) (logon : Nat) (stream : Bytes) (s : State) :
    State × Except SessionError Unit :=
  let (frames, fault) := Frame.readAll o.maxFrameBytes stream
  match stepAll p o logon frames s with
  | (s, .over outcome) => (s, outcome)
  | (s, .live) => (s, outcomeOf fault)

/-- A whole session, from opening to closing, while no other session is open. -/
def run (p : Protocol) (o : ServerOptions) (logon : Nat) (stream : Bytes) (s : State) : State :=
  match serve p o logon stream (s.tell (.opened 1)) with
  | (s, .ok ()) => s.tell (.closed 0)
  | (s, .error fault) => (s.tell (.failed fault)).tell (.closed 0)

/-- Sessions one after the other, numbered from `logon` on. -/
def runAll (p : Protocol) (o : ServerOptions) (logon : Nat) : List Bytes → List State
  | [] => []
  | stream :: rest => run p o logon stream (.start [] []) :: runAll p o (logon + 1) rest

end Session

end TradeWire

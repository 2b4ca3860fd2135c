import TradeWire.Session.Serve

/-! The client side of a session: it numbers the requests it sends and decodes what the server writes back. -/

set_option autoImplicit false
set_option relaxedAutoImplicit false

namespace TradeWire

/-- The state of a client: the next sequence number, and what the server wrote and the client has not
yet read. -/
structure Client where
  sequence : UInt64
  incoming : Bytes
deriving Repr, DecidableEq

/-- Why a client cannot receive a message. -/
inductive ReceiveError where
  | frame (fault : Frame.Fault)
  | dispatch (fault : DispatchError)
deriving Repr, DecidableEq

namespace Client

def start : Client := ⟨1, []⟩

/-- Stamp the next sequence number on a message and make its frame. The number counts as used as soon
as it is stamped; the answer holds the message as it was left. -/
def send (c : Client) (r : Record) : Client × Record × Except SendError Bytes :=
  let (stamped, sequence) := match r.stampSequence? c.sequence with
    | some stamped => (stamped, c.sequence + 1)
    | none => (r, c.sequence)
  let ready := stamped.settled
  ({ c with sequence := sequence }, ready, ready.frame Frame.defaultLimit)

def receive (registry : Registry) (c : Client) : Client × Except ReceiveError Record :=
  match Frame.read Frame.defaultLimit c.incoming with
  | .error fault => ({ c with incoming := [] }, .error (.frame fault))
  | .ok (bytes, rest) =>
    match registry.unpack bytes 0 with
    | .error fault => ({ c with incoming := rest }, .error (.dispatch fault))
    | .ok (r, _) => ({ c with incoming := rest }, .ok r.trim)

def receiveMany (registry : Registry) : Nat → Client → Client × List (Except ReceiveError Record)
  | 0, c => (c, [])
  | count + 1, c =>
    let (c, first) := receive registry c
    let (c, later) := receiveMany registry count c
    (c, first :: later)

end Client

namespace Session

/-- What a client saw of one exchange. -/
structure Exchange where
  /-- The request as it was left. -/
  request : Record
  /-- Why the request was not sent, if it was not. -/
  failure : Option SendError
  received : List (Except ReceiveError Record)

/-- The server side of an exchange: its state, and the outcome once the session is over. -/
structure Served where
  state : State
  progress : Progress

/-- Hand bytes to a session that is still live; the answer holds what it wrote in return. -/
def Served.take (p : Protocol) (o : ServerOptions) (s : Served) (stream : Bytes) : Served × Bytes :=
  match s.progress with
  | .over _ => (s, [])
  | .live =>
    let before := s.state.written.length
    let (frames, _) := Frame.readAll o.maxFrameBytes stream
    let (state, progress) := stepAll p o 0 frames s.state
    (⟨state, progress⟩, (state.written.drop before).flatten)

/-- Send requests in turn; after each, receive as many messages as are expected. -/
def exchange (p : Protocol) (o : ServerOptions) : List (Record × Nat) → Client → Served → List Exchange
  | [], _, _ => []
  | (request, expected) :: rest, c, s =>
    let (c, ready, frame) := c.send request
    let (s, answer, failure) := match frame with
      | .ok bytes =>
        let (s, answer) := s.take p o bytes
        (s, answer, none)
      | .error fault => (s, [], some fault)
    let (c, received) := { c with incoming := c.incoming ++ answer }.receiveMany p.registry expected
    ⟨ready, failure, received⟩ :: exchange p o rest c s

end Session

end TradeWire

import TradeWire.Flow.Pick
import TradeWire.Protocol.Frame

/-! The options of a session server and their defaults. -/

set_option autoImplicit false
set_option relaxedAutoImplicit false

namespace TradeWire

/-- The options of a session server. Times are in nanoseconds; a policy that is not set is `none`. -/
structure ServerOptions where
  listenAddr : String
  /-- The address of the admin views; empty when they are off. -/
  adminAddr : String
  corsOrigins : List String
  schemaPath : String
  policy : Option Flow.Policy
  /-- The number of the session to reject, counted from zero; a negative number rejects none. -/
  rejectNthLogon : Int
  rejectText : String
  /-- Fixes the random choice when it is not zero. -/
  seed : Int
  readTimeout : Int
  writeTimeout : Int
  maxFrameBytes : Nat
deriving Repr, DecidableEq

namespace ServerOptions

def defaultListenAddr : String := "127.0.0.1:7171"

/-- The origins that may ask for admin views unless others are named. -/
def defaultOrigins : List String := ["http://localhost:3000"]

/-- The options of a server about which nothing is said. -/
def default : ServerOptions where
  listenAddr := defaultListenAddr
  adminAddr := ""
  corsOrigins := defaultOrigins
  schemaPath := "eti.xml"
  policy := some .random
  rejectNthLogon := -1
  rejectText := "You cannot logon until you have payed your bills!"
  seed := 0
  readTimeout := 0
  writeTimeout := 5000000000
  maxFrameBytes := Frame.defaultLimit

def unset : ServerOptions := ⟨"", "", [], "", none, 0, "", 0, 0, 0, 0⟩

def withDefaults (o : ServerOptions) : ServerOptions :=
  { o with
    listenAddr := if o.listenAddr == "" then default.listenAddr else o.listenAddr
    policy := if o.policy.isNone then default.policy else o.policy
    rejectText := if o.rejectText == "" then default.rejectText else o.rejectText
    writeTimeout := if o.writeTimeout ≤ 0 then default.writeTimeout else o.writeTimeout
    maxFrameBytes := if o.maxFrameBytes == 0 then default.maxFrameBytes else o.maxFrameBytes }

/-- The origins without blanks; none left means the default ones. -/
def cleanOrigins (origins : List String) : List String :=
  let kept := (origins.map Text.trim).filter (· != "")
  if kept.isEmpty then defaultOrigins else kept

end ServerOptions

end TradeWire

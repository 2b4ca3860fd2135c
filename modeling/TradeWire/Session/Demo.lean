import TradeWire.Session.Serve

/-! The requests of the demo client: a logon, a user login and an immediate-or-cancel buy order. -/

set_option autoImplicit false
set_option relaxedAutoImplicit false

namespace TradeWire.Session

inductive Setting where
  | uint (path : String) (value : UInt64)
  | enum (path symbol : String)
  | text (path value : String)
  | decimal (path value : String)
deriving Repr, DecidableEq

def Setting.apply (r : Record) : Setting → Except FieldError Record
  | uint path value => r.setUint path value
  | enum path symbol => r.setEnum path symbol
  | text path value => r.setText path value
  | decimal path value => r.setDecimal .standard path value

def applyAll (r : Record) : List Setting → Except FieldError Record
  | [] => .ok r
  | setting :: rest =>
    match setting.apply r with
    | .error fault => .error fault
    | .ok r => applyAll r rest

def demoSettings : List (String × List Setting) := [
  ("LogonRequest", [
    .uint "HeartBtInt" 2300000,
    .uint "PartyIDSessionID" 471142,
    .enum "ApplUsageOrders" "Automated",
    .enum "ApplUsageQuotes" "Automated",
    .enum "OrderRoutingIndicator" "No",
    .text "ApplicationSystemName" "myRoboTrader",
    .text "ApplicationSystemVersion" "1.666",
    .text "ApplicationSystemVendor" "ACME Inc.",
    .text "Password" "einsfueralles",
    .uint "RequestHeader.SenderSubID" 8150815]),
  ("UserLoginRequest", [
    .uint "Username" 23,
    .text "Password" "P4s7w0rd"]),
  ("NewOrderSingleShortRequest", [
    .enum "TimeInForce" "IOC",
    .enum "Side" "Buy",
    .decimal "OrderQty" "42",
    .uint "SimpleSecurityID" 23,
    .decimal "Price" "404",
    .uint "ClOrdID" 666])]

def freshAll (registry : Registry) :
    List (String × List Setting) → Except SessionError (List (Record × List Setting))
  | [] => .ok []
  | (name, settings) :: rest =>
    match registry.lookupName? name with
    | none => .error (.unknownMessage name)
    | some l =>
      match freshAll registry rest with
      | .error fault => .error fault
      | .ok more => .ok ((Record.new l, settings) :: more)

/-- The demo requests. All messages must exist before the first is filled in. -/
def demoRequests (registry : Registry) : Except SessionError (List Record) :=
  match freshAll registry demoSettings with
  | .error fault => .error fault
  | .ok fresh =>
    match fresh.mapM fun (r, settings) => applyAll r settings with
    | .error fault => .error (.field fault)
    | .ok records => .ok records

end TradeWire.Session

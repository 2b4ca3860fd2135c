import TradeWire.Admin.View
import TradeWire.Number.Literal
import TradeWire.Text.CodePoint

/-! Which view a path asks for; a trailing slash leads back to the path of the view. -/

set_option autoImplicit false
set_option relaxedAutoImplicit false

namespace TradeWire.Admin

inductive Route where
  | health
  | templates
  | template (id : String)
  | flow (id : String)
  | metrics
  /-- The path of a view with a slash behind it. -/
  | withoutSlash
  | unknown
deriving Repr, DecidableEq

/-- The answer to a request: a status and, where there is one, a view. -/
structure Answer where
  status : Nat
  body : Option View
deriving Repr

def splitSlashes : List Char → List String
  | [] => [""]
  | c :: rest =>
    if c == '/' then "" :: splitSlashes rest
    else
      match splitSlashes rest with
      | [] => [String.ofList [c]]
      | part :: parts => (String.ofList [c] ++ part) :: parts

/-- Resolve the escapes of a path; a percent sign is followed by two hexadecimal digits. -/
def unescapeBytes : List Char → Bytes
  | '%' :: a :: b :: rest =>
    match Text.hexDigit? a, Text.hexDigit? b with
    | some high, some low => UInt8.ofNat (16 * high + low) :: unescapeBytes rest
    | _, _ => Text.encodeUtf8 "%" ++ unescapeBytes (a :: b :: rest)
  | c :: rest => Text.encodeUtf8 (String.ofList [c]) ++ unescapeBytes rest
  | [] => []

def pathOf (target : String) : List Char :=
  let path := target.toList.takeWhile (· != '?')
  match Text.decodeUtf8? (unescapeBytes path) with
  | some s => s.toList
  | none => path

def Route.ofTarget (target : String) : Route :=
  match splitSlashes (pathOf target) with
  | ["", "health"] => .health
  | ["", "health", ""] => .withoutSlash
  | ["", "metrics"] => .metrics
  | ["", "metrics", ""] => .withoutSlash
  | ["", "templates"] => .templates
  | ["", "templates", ""] => .withoutSlash
  | ["", "templates", id] => .template id
  | ["", "templates", _, ""] => .withoutSlash
  | ["", "flows", ""] => .unknown
  | ["", "flows", id] => .flow id
  | ["", "flows", _, ""] => .withoutSlash
  | _ => .unknown

/-- Answer with a view of the template whose id a text gives. -/
def withTemplate (id : String) (view : Int → Nat × View) : Answer :=
  match Literal.decimal id with
  | .error _ => ⟨400, some (failure "template id must be an integer")⟩
  | .ok n => ⟨(view n).1, some (view n).2⟩

def respond (s : Server) (target : String) : Answer :=
  match Route.ofTarget target with
  | .health => ⟨200, some (health s)⟩
  | .templates => ⟨200, some (templates s)⟩
  | .template id => withTemplate id fun n =>
    match s.protocol.registry.lookup n with
    | .error fault => (404, failure fault.message)
    | .ok l => (200, templateDetail l)
  | .flow id => withTemplate id fun n =>
    match s.protocol.flows.responsesTo? n with
    | none => (404, failure ("no flow for template " ++ toString n))
    | some responses => (200, flow s n responses)
  | .metrics => ⟨200, none⟩
  | .withoutSlash => ⟨301, none⟩
  | .unknown => ⟨404, none⟩

end TradeWire.Admin

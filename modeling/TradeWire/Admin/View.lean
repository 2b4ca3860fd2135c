import TradeWire.Protocol.Basic

/-! The admin views of a server: its health, the messages of its schema and their response flows. -/

set_option autoImplicit false
set_option relaxedAutoImplicit false

namespace TradeWire.Admin

inductive View where
  | text (s : String)
  | number (n : Int)
  | flag (b : Bool)
  | list (items : List View)
  | object (entries : List (String × View))
deriving Repr

/-- What there is to be seen of a server. -/
structure Server where
  protocol : Protocol
  /-- The word for the policy in force. -/
  policy : String
  logons : Nat
  activeSessions : Nat

def failure (message : String) : View := .object [("error", .text message)]

def health (s : Server) : View := .object [
  ("status", .text "ok"),
  ("schema", .text s.protocol.model.fullVersion),
  ("policy", .text s.policy),
  ("logons", .number s.logons),
  ("active_sessions", .number s.activeSessions)]

def template (l : Layout) : View := .object [
  ("template_id", .number l.templateId),
  ("name", .text l.name),
  ("fixed_size", .number l.size.fixed),
  ("min_size", .number l.size.least),
  ("max_size", .number l.size.most),
  ("static", .flag l.size.isStatic)]

def templates (s : Server) : View := .list (s.protocol.table.messages.map template)

/-- A field of a message, with its place where that is known. -/
def field (f : Field) (place : Placement) : View :=
  let offset := match place.start with
    | some n => [("offset", View.number n)]
    | none => []
  .object ([("name", .text f.name), ("kind", .text f.kindWord), ("size", .number f.size)] ++ offset)

def templateDetail (l : Layout) : View := .object [
  ("template", template l),
  ("fields", .list ((l.fields.zip l.placements).map fun (f, place) => field f place))]

def textEntry (name s : String) : List (String × View) := if s == "" then [] else [(name, .text s)]

def listEntry (name : String) (items : List View) : List (String × View) :=
  if items.isEmpty then [] else [(name, .list items)]

mutual

def node : Flow.Node → View
  | .response message condition children =>
    .object (textEntry "response" message.message ++
      (if message.templateId = 0 then [] else [("template_id", .number message.templateId)]) ++
      textEntry "condition" condition ++ listEntry "children" (nodes children))
  | .field name condition children =>
    .object (textEntry "field" name ++ textEntry "condition" condition ++
      listEntry "children" (nodes children))

def nodes : List Flow.Node → List View
  | [] => []
  | n :: rest => node n :: nodes rest

end

def flow (s : Server) (id : Int) (responses : List Flow.Node) : View := .object [
  ("request", .text (s.protocol.registry.nameOf id)),
  ("responses", .list (nodes responses))]

end TradeWire.Admin

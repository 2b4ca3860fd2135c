import TradeWire.Text.Quoted

/-! What can be wrong with a schema, from reading the document to compiling it. -/

set_option autoImplicit false
set_option relaxedAutoImplicit false

namespace TradeWire

namespace SchemaError

/-- The ways in which a schema can be refused. -/
inductive Cause where
  /-- The document is not well formed. -/
  | malformed (detail : String)
  | unnamedType
  | unsupportedRoot (type root : String)
  | invalidSize (type raw : String)
  | unsupportedWidth (type : String) (size : Nat)
  | invalidPrecision (type raw : String)
  | valueNotInteger (type value : String)
  | duplicateType (type : String)
  | unnamedStructure
  | invalidNumericId (raw : String)
  | incompleteMember
  | duplicateMember
  | invalidCardinality (raw : String)
  | invalidMinCardinality (raw : String)
  | duplicateStructure
  | shadowsType
  | duplicateTemplate (id : Nat) (holder : String)
  | unknownType (type : String)
  | invalidUsage (raw : String)
  | unknownRequest (flow request : String)
  | unknownResponse (message : String)
  | selfReference
  | messageAsMember (message : String)
  | noCardinality
  | sizesOutOfOrder
  | elementNotFixed (element : String)
  | repeatedPrimitive (type : String)
  | charNotOneByte (type literal : String)
  | invalidValue (type literal : String)
  | invalidNoValue (type literal : String)
  | noCounter
  | counterNotEarlier (counter : String)
  | counterNotInteger (counter : String)
  | noHeader
  | headerBehindDynamic
  | headerIncomplete
  | noMessages
  | headersDisagree (offset : Int) (width : Nat) (expectedOffset : Int) (expectedWidth : Nat)
  | requestNotMessage
  | responseNotMessage (message : String)
deriving Repr, DecidableEq

def Cause.reason : Cause → String
  | malformed detail => "decode xml: " ++ detail
  | unnamedType => "data type without name"
  | unsupportedRoot type root =>
    "data type " ++ Text.quote type ++ ": unsupported rootType " ++ Text.quote root
  | invalidSize type raw => "data type " ++ Text.quote type ++ ": invalid size " ++ Text.quote raw
  | unsupportedWidth type size =>
    "data type " ++ Text.quote type ++ ": unsupported integer size " ++ toString size
  | invalidPrecision type raw =>
    "data type " ++ Text.quote type ++ ": invalid precision " ++ Text.quote raw
  | valueNotInteger type value =>
    "data type " ++ Text.quote type ++ ": valid value " ++ Text.quote value ++ " is not an integer"
  | duplicateType type => "duplicate data type " ++ Text.quote type
  | unnamedStructure => "structure without name"
  | invalidNumericId raw => "invalid numericID " ++ Text.quote raw
  | incompleteMember => "member requires name and type"
  | duplicateMember => "duplicate member"
  | invalidCardinality raw => "invalid cardinality " ++ Text.quote raw
  | invalidMinCardinality raw => "invalid minCardinality " ++ Text.quote raw
  | duplicateStructure => "duplicate structure"
  | shadowsType => "structure name shadows a data type"
  | duplicateTemplate id holder => "template id " ++ toString id ++ " already used by " ++ holder
  | unknownType type => "unknown type " ++ Text.quote type
  | invalidUsage raw => "invalid usage " ++ Text.quote raw
  | unknownRequest flow request =>
    "message flow " ++ Text.quote flow ++ " references unknown request " ++ Text.quote request
  | unknownResponse message => "message flow references unknown message " ++ Text.quote message
  | selfReference => "structure references itself"
  | messageAsMember message => "message " ++ message ++ " used as member type"
  | noCardinality => "member has no cardinality"
  | sizesOutOfOrder => "size invariant min <= fixed <= max violated"
  | elementNotFixed element => "structure " ++ element ++ " has no static size"
  | repeatedPrimitive type => "repeated primitive member of type " ++ type
  | charNotOneByte type literal =>
    "type " ++ type ++ ": char value " ++ Text.quote literal ++ " must be one byte"
  | invalidValue type literal => "type " ++ type ++ ": invalid literal " ++ Text.quote literal
  | invalidNoValue type literal =>
    "type " ++ type ++ ": noValue: invalid literal " ++ Text.quote literal
  | noCounter => "variable member has no counter"
  | counterNotEarlier counter => "counter " ++ counter ++ " is not an earlier sibling"
  | counterNotInteger counter => "counter " ++ counter ++ " is not an integer"
  | noHeader => "message has no header member"
  | headerBehindDynamic => "header follows dynamic content"
  | headerIncomplete => "header lacks integer BodyLen and TemplateID"
  | noMessages => "no message structures"
  | headersDisagree offset width expectedOffset expectedWidth =>
    "template id at " ++ toString offset ++ "/" ++ toString width ++ ", expected " ++
      toString expectedOffset ++ "/" ++ toString expectedWidth
  | requestNotMessage => "flow request is not a message"
  | responseNotMessage message => "flow response " ++ Text.quote message ++ " is not a message"

end SchemaError

/-- A refused schema: the structure and member concerned, where there is one, and the cause. -/
structure SchemaError where
  owner : String
  member : String
  cause : SchemaError.Cause
deriving Repr, DecidableEq

namespace SchemaError

def general (cause : Cause) : SchemaError := ⟨"", "", cause⟩

def ofStructure (owner : String) (cause : Cause) : SchemaError := ⟨owner, "", cause⟩

def message (e : SchemaError) : String :=
  if e.owner == "" then "schema: " ++ e.cause.reason
  else if e.member == "" then "schema: structure=" ++ e.owner ++ ": " ++ e.cause.reason
  else "schema: structure=" ++ e.owner ++ " member=" ++ e.member ++ ": " ++ e.cause.reason

end SchemaError

end TradeWire

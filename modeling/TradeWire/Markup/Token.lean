import TradeWire.Markup.Element
import TradeWire.Markup.NameChar
import TradeWire.Number.Literal
import TradeWire.Text.LowerCase
import TradeWire.Text.Utf8

/-! Tokens at the front of a markup document: start tags, end tags, and stretches that have to be well formed. -/

set_option autoImplicit false
set_option relaxedAutoImplicit false

namespace TradeWire.Markup

inductive Fault where
  | unexpectedEnd
  | badName
  | badTag
  | badValue
  | badReference
  | badText
  | badComment
  | badVersion (version : String)
  | badEncoding (encoding : String)
  | unbalanced
  | wrongRoot (tag : String)
deriving Repr, DecidableEq

def Fault.message : Fault → String
  | .unexpectedEnd => "unexpected end of document"
  | .badName => "expected a name"
  | .badTag => "tag is not well formed"
  | .badValue => "attribute value is not well formed"
  | .badReference => "invalid character reference"
  | .badText => "text holds what it must not hold"
  | .badComment => "comment is not well formed"
  | .badVersion version => "unsupported version " ++ version
  | .badEncoding encoding => "unsupported encoding " ++ encoding
  | .unbalanced => "end tag does not match its start tag"
  | .wrongRoot tag => "unexpected root element " ++ tag

/-- A token; a start tag may close its element at once. -/
inductive Token where
  | opening (name : Name) (attributes : List Attribute) (closed : Bool)
  | closing (name : Name)
  | filler
deriving Repr

abbrev Read (α : Type) := Except Fault (α × Bytes)

private def isSpaceByte (b : UInt8) : Bool := b == 32 || b == 13 || b == 10 || b == 9

def skipSpace (bytes : Bytes) : Bytes := bytes.dropWhile isSpaceByte

/-- The bytes a name is made of; those of multi-byte characters are judged later. -/
def isNameByte (b : UInt8) : Bool :=
  128 ≤ b || (65 ≤ b && b ≤ 90) || (97 ≤ b && b ≤ 122) || (48 ≤ b && b ≤ 57) || b == 95 || b == 58 ||
    b == 46 || b == 45

def readName (bytes : Bytes) : Read String :=
  let rest := bytes.dropWhile isNameByte
  match Text.decodeUtf8? (bytes.takeWhile isNameByte) with
  | none => .error .badName
  | some name =>
    if !isName name.toList then .error .badName
    else if rest.isEmpty then .error .unexpectedEnd
    else .ok (name, rest)

/-- Split a name at its colon; a colon at an end belongs to the name, and two are too many. -/
def splitName (s : String) : Option Name :=
  let cs := s.toList
  if 1 < cs.count ':' then none
  else
    let space := cs.takeWhile (· != ':')
    let base := (cs.dropWhile (· != ':')).drop 1
    if space.isEmpty || base.isEmpty then some ⟨"", s⟩
    else some ⟨String.ofList space, String.ofList base⟩

def readQualified (bytes : Bytes) : Read Name :=
  match readName bytes with
  | .error fault => .error fault
  | .ok (s, rest) =>
    match splitName s with
    | none => .error .badName
    | some name => .ok (name, rest)

/-- The number of a character reference as bytes of text. A surrogate number stands for the
replacement character. -/
def referenceBytes (n : Nat) : Option Bytes :=
  if 0x10ffff < n then none
  else if 0xd800 ≤ n && n ≤ 0xdfff then some [0xef, 0xbf, 0xbd]
  else some (Text.encodeUtf8 (String.ofList [Char.ofNat n]))

private def referenceNumber (base : Nat) (cs : List Char) : Option Bytes :=
  if cs.isEmpty then none
  else
    match Literal.digits base false 0 cs with
    | .ok n => referenceBytes n
    | .error _ => none

/-- What stands for a reference: a character number or one of the five predefined names. -/
def resolveReference (body : Bytes) : Option Bytes :=
  match Text.decodeUtf8? body with
  | none => none
  | some s =>
    match s.toList with
    | '#' :: 'x' :: ds => referenceNumber 16 ds
    | '#' :: ds => referenceNumber 10 ds
    | _ =>
      if s == "lt" then some [60]
      else if s == "gt" then some [62]
      else if s == "amp" then some [38]
      else if s == "apos" then some [39]
      else if s == "quot" then some [34]
      else none

/-- Where a stretch of text ends: at the next tag, at a closing quote, or at the end of a character
data section, in which neither tags nor references count. -/
inductive Stretch where
  | plain
  | quoted (delimiter : UInt8)
  | verbatim
deriving Repr, DecidableEq

/-- Read text. `last` and `first` are the two bytes read before, `pending` the bytes of an open
reference in reverse, `text` the text so far in reverse. Carriage returns become line feeds. -/
def readText (stretch : Stretch) (first last : UInt8) (pending : Option Bytes) (text : Bytes) :
    Bytes → Read Bytes
  | [] => .error .unexpectedEnd
  | b :: rest =>
    match pending with
    | some body =>
      if b == 59 then
        match resolveReference body.reverse with
        | none => .error .badReference
        | some bytes => readText stretch 0 0 none (bytes.reverse ++ text) rest
      else readText stretch first last (some (b :: body)) text rest
    | none =>
      match stretch with
      | .verbatim =>
        if first == 93 && last == 93 && b == 62 then .ok ((text.drop 2).reverse, rest)
        else if b == 13 then readText stretch last b none (10 :: text) rest
        else if last == 13 && b == 10 then readText stretch last b none text rest
        else readText stretch last b none (b :: text) rest
      | .plain =>
        if first == 93 && last == 93 && b == 62 then .error .badText
        else if b == 60 then .ok (text.reverse, b :: rest)
        else if b == 38 then readText stretch first last (some []) text rest
        else if b == 13 then readText stretch last b none (10 :: text) rest
        else if last == 13 && b == 10 then readText stretch last b none text rest
        else readText stretch last b none (b :: text) rest
      | .quoted delimiter =>
        if b == 60 then .error .badValue
        else if b == delimiter then .ok (text.reverse, rest)
        else if b == 38 then readText stretch first last (some []) text rest
        else if b == 13 then readText stretch last b none (10 :: text) rest
        else if last == 13 && b == 10 then readText stretch last b none text rest
        else readText stretch last b none (b :: text) rest

/-- Read text that holds only characters markup admits. -/
def readCheckedText (stretch : Stretch) (bytes : Bytes) : Read String :=
  match readText stretch 0 0 none [] bytes with
  | .error fault => .error fault
  | .ok (text, rest) =>
    match Text.decodeUtf8? text with
    | none => .error .badText
    | some s => if s.toList.all isMarkupChar then .ok (s, rest) else .error .badText

/-- Read an attribute: name, equals sign, quoted value. -/
def readAttribute (bytes : Bytes) : Read Attribute :=
  match readQualified bytes with
  | .error fault => .error fault
  | .ok (name, afterName) =>
    match skipSpace afterName with
    | [] => .error .unexpectedEnd
    | 61 :: rest =>
      match skipSpace rest with
      | [] => .error .unexpectedEnd
      | delimiter :: value =>
        if delimiter == 34 || delimiter == 39 then
          match readCheckedText (.quoted delimiter) value with
          | .error fault => .error fault
          | .ok (s, remaining) => .ok (⟨name, s⟩, remaining)
        else .error .badValue
    | _ => .error .badTag

/-- Read the attributes of a start tag and its end; `true` says that the tag closes its element.
Every attribute takes a byte, so the number of bytes is fuel enough. -/
def readAttributes (fuel : Nat) (bytes : Bytes) : Read (List Attribute × Bool) :=
  match fuel with
  | 0 => .error .unexpectedEnd
  | fuel + 1 =>
    match skipSpace bytes with
    | [] => .error .unexpectedEnd
    | 47 :: rest =>
      match rest with
      | [] => .error .unexpectedEnd
      | 62 :: remaining => .ok (([], true), remaining)
      | _ => .error .badTag
    | 62 :: rest => .ok (([], false), rest)
    | front =>
      match readAttribute front with
      | .error fault => .error fault
      | .ok (first, rest) =>
        match readAttributes fuel rest with
        | .error fault => .error fault
        | .ok ((more, closed), remaining) => .ok ((first :: more, closed), remaining)

/-- Skip a comment behind its opening mark. Two hyphens may only stand before its end. -/
def skipComment (first last : UInt8) : Bytes → Except Fault Bytes
  | [] => .error .unexpectedEnd
  | b :: rest =>
    if first == 45 && last == 45 then if b == 62 then .ok rest else .error .badComment
    else skipComment last b rest

/-- Where a reader of a declaration stands: in its body, maybe inside quotes; behind an angle
bracket that may open a comment; or inside such a comment. -/
inductive DeclarationState where
  | body (quote : Option UInt8) (depth : Nat)
  | bracket (matched : Nat) (depth : Nat)
  | comment (first last : UInt8) (depth : Nat)
deriving Repr

/-- The state after a byte of a declaration's body outside quotes. -/
def declarationStep (depth : Nat) (b : UInt8) : DeclarationState :=
  if b == 39 || b == 34 then .body (some b) depth
  else if b == 62 then .body none (depth - 1)
  else if b == 60 then .bracket 0 depth
  else .body none depth

/-- Skip a declaration. Brackets nest outside quotes, and comments inside it are skipped too. -/
def skipDeclaration : DeclarationState → Bytes → Except Fault Bytes
  | _, [] => .error .unexpectedEnd
  | .body (some quote) depth, b :: rest =>
    skipDeclaration (.body (if b == quote then none else some quote) depth) rest
  | .body none depth, b :: rest =>
    if b == 62 && depth == 0 then .ok rest else skipDeclaration (declarationStep depth b) rest
  | .bracket matched depth, b :: rest =>
    if matched == 0 && b == 33 then skipDeclaration (.bracket 1 depth) rest
    else if matched == 1 && b == 45 then skipDeclaration (.bracket 2 depth) rest
    else if matched == 2 && b == 45 then skipDeclaration (.comment 0 0 depth) rest
    else skipDeclaration (declarationStep (depth + 1) b) rest
  | .comment first last depth, b :: rest =>
    if first == 45 && last == 45 && b == 62 then skipDeclaration (.body none depth) rest
    else skipDeclaration (.comment last b depth) rest

/-- The bytes before the mark that ends an instruction, and those behind it. -/
def splitInstruction : Bytes → Option (Bytes × Bytes)
  | [] => none
  | 63 :: 62 :: rest => some ([], rest)
  | b :: rest => (splitInstruction rest).map fun (body, remaining) => (b :: body, remaining)

def behind (word : Bytes) : Bytes → Option Bytes
  | [] => none
  | b :: rest => if word.isPrefixOf (b :: rest) then some ((b :: rest).drop word.length) else behind word rest

/-- The quoted value of a parameter of an instruction, empty when there is none. Occurrences that no
quote follows are passed over. -/
def parameter (fuel : Nat) (word : Bytes) (body : Bytes) : Bytes :=
  match fuel with
  | 0 => []
  | fuel + 1 =>
    match behind word body with
    | none => []
    | some [] => []
    | some (delimiter :: rest) =>
      if delimiter == 39 || delimiter == 34 then
        if rest.contains delimiter then rest.takeWhile (· != delimiter) else []
      else parameter fuel word rest

private def parameterOf (word : String) (body : Bytes) : Bytes :=
  parameter (body.length + 1) (Text.encodeUtf8 word) body

private def shown (bytes : Bytes) : String := (Text.decodeUtf8? bytes).getD ""

/-- An instruction to the reader: only version 1.0 and UTF-8 are understood. -/
def checkInstruction (target : String) (body : Bytes) : Except Fault Unit :=
  if target != "xml" then .ok ()
  else
    let version := parameterOf "version=" body
    let encoding := parameterOf "encoding=" body
    if !version.isEmpty && version != Text.encodeUtf8 "1.0" then .error (.badVersion (shown version))
    else if !encoding.isEmpty && !Text.spells (shown encoding) "utf-8" then
      .error (.badEncoding (shown encoding))
    else .ok ()

def readInstruction (bytes : Bytes) : Read Token :=
  match readName bytes with
  | .error fault => .error fault
  | .ok (target, rest) =>
    match splitInstruction (skipSpace rest) with
    | none => .error .unexpectedEnd
    | some (body, remaining) =>
      match checkInstruction target body with
      | .error fault => .error fault
      | .ok () => .ok (.filler, remaining)

def readClosing (bytes : Bytes) : Read Token :=
  match readQualified bytes with
  | .error fault => .error fault
  | .ok (name, rest) =>
    match skipSpace rest with
    | [] => .error .unexpectedEnd
    | 62 :: remaining => .ok (.closing name, remaining)
    | _ => .error .badTag

def readOpening (bytes : Bytes) : Read Token :=
  match readQualified bytes with
  | .error fault => .error fault
  | .ok (name, rest) =>
    match readAttributes rest.length rest with
    | .error fault => .error fault
    | .ok ((attributes, closed), remaining) => .ok (.opening name attributes closed, remaining)

def sectionMark : Bytes := Text.encodeUtf8 "CDATA["

/-- Read what follows an exclamation mark: a comment, a character data section or a declaration. -/
def readDeclaration : Bytes → Read Token
  | 45 :: rest =>
    match rest with
    | [] => .error .unexpectedEnd
    | 45 :: body => (skipComment 0 0 body).map fun remaining => (.filler, remaining)
    | _ => .error .badComment
  | 91 :: rest =>
    if sectionMark.isPrefixOf rest then
      (readCheckedText .verbatim (rest.drop sectionMark.length)).map fun (_, remaining) =>
        (.filler, remaining)
    else .error .badTag
  | _ :: rest => (skipDeclaration (.body none 0) rest).map fun remaining => (.filler, remaining)
  | [] => .error .unexpectedEnd

def readToken : Bytes → Read Token
  | [] => .error .unexpectedEnd
  | 60 :: rest =>
    match rest with
    | [] => .error .unexpectedEnd
    | 47 :: remaining => readClosing remaining
    | 63 :: remaining => readInstruction remaining
    | 33 :: remaining => readDeclaration remaining
    | _ => readOpening rest
  | bytes => (readCheckedText .plain bytes).map fun (_, remaining) => (.filler, remaining)

end TradeWire.Markup

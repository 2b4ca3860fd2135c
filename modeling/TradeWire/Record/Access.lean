import TradeWire.Number.Decimal
import TradeWire.Record.Path

/-! Reading and setting the fields of a record by path. -/

set_option autoImplicit false
set_option relaxedAutoImplicit false

namespace TradeWire.Record

def locateInt (r : Record) (path : String) : Except FieldError (Location × Nat × IntForm × Slot) :=
  match r.locate path with
  | .error fault => .error fault
  | .ok (l, .primitive _ _ size (.int form), s) => .ok (l, size, form, s)
  | .ok (_, f, _) => .error (.wrongKind path f.kindWord)

def locateBytes (r : Record) (path : String) : Except FieldError (Location × Slot) :=
  match r.locate path with
  | .error fault => .error fault
  | .ok (l, .primitive _ _ _ (.bytes _), s) => .ok (l, s)
  | .ok (l, .primitive _ _ _ (.varBytes _), s) => .ok (l, s)
  | .ok (_, f, _) => .error (.wrongKind path f.kindWord)

/-- The raw value of a number for a field, when it lies in the range of its width and sign. -/
def rawOfInt? (size : Nat) (isSigned : Bool) (n : Int) : Option UInt64 :=
  let inRange := if isSigned then Word.isSigned n else decide (0 ≤ n ∧ n < 0x10000000000000000)
  let raw := Word.ofInt n
  if inRange && Word.fits raw size isSigned then some raw else none

def appendItem (item : List Slot) : Slot → Slot
  | .elems items => .elems (items ++ [item])
  | s => s

/-- A change of a record that may fail. It leaves a record in either case: as it stands when it ends. -/
abbrev Update (α : Type) := EStateM FieldError Record α

namespace Update

variable {α : Type}

def look (read : Record → Except FieldError α) : Update α := fun r =>
  match read r with
  | .error fault => .error fault r
  | .ok a => .ok a r

def put (place : Location) (change : Slot → Slot) : Update Unit := fun r => .ok () (r.modify place change)

def outcome (u : Update α) (r : Record) : Except FieldError Record :=
  match u.run r with
  | .ok _ next => .ok next
  | .error fault _ => .error fault

/-- Set the raw value of an integer field. A signed field takes the bit pattern of its width as well as
the sign-extended value. -/
def uint (path : String) (raw : UInt64) : Update Unit := do
  let (place, size, form, _) ← look (locateInt · path)
  if form.isSigned then
    let value := if size < 8 && Word.isNarrow raw size then Word.signExtend raw size else raw
    if Word.fits value size true then put place fun _ => .int value ""
    else throw (.rawOutOfRange path value)
  else put place fun _ => .int raw ""

def int (path : String) (value : Int) : Update Unit := do
  let (place, _, form, _) ← look (locateInt · path)
  if !form.isSigned && value < 0 then throw (.intOutOfRange path value)
  else put place fun _ => .int (Word.ofInt value) ""

/-- Set an enumeration field by symbol, whatever its case. -/
def enum (path symbol : String) : Update Unit := do
  let (place, _, form, _) ← look (locateInt · path)
  match form.symbols with
  | none => throw (.notEnumeration path)
  | some symbols =>
    match symbols.value? symbol with
    | none => throw (.unknownSymbol path symbol)
    | some raw => put place fun _ => .int raw ((symbols.name? raw).getD "")

def bytes (path : String) (data : Bytes) : Update Unit := do
  let (place, _) ← look (locateBytes · path)
  put place fun _ => .bytes data

def decimal (lib : DecimalLibrary) (path text : String) : Update Unit := do
  let (place, size, form, _) ← look (locateInt · path)
  match lib.units text form.scale with
  | .error (.unreadable reason) => throw (.badDecimal path text reason)
  | .error .tooManyPlaces => throw (.tooManyPlaces path text form.scale)
  | .ok n =>
    match rawOfInt? size form.isSigned n with
    | none => throw (.decimalOutOfRange path text)
    | some raw => put place fun _ => .int raw ""

/-- Add a fresh element to a group; the answer is the element. -/
def appendElem (path : String) : Update Record := do
  match ← look (locate · path) with
  | (place, .nested _ (.group ..) element, _) =>
    put place (appendItem element.initialSlots)
    return new element
  | (_, f, _) => throw (.wrongKind path f.kindWord)

end Update

def setUint (r : Record) (path : String) (raw : UInt64) : Except FieldError Record :=
  (Update.uint path raw).outcome r

def setInt (r : Record) (path : String) (value : Int) : Except FieldError Record :=
  (Update.int path value).outcome r

def setEnum (r : Record) (path symbol : String) : Except FieldError Record :=
  (Update.enum path symbol).outcome r

def setBytes (r : Record) (path : String) (data : Bytes) : Except FieldError Record :=
  (Update.bytes path data).outcome r

def setText (r : Record) (path text : String) : Except FieldError Record :=
  r.setBytes path (Text.encodeUtf8 text)

def setDecimal (r : Record) (lib : DecimalLibrary) (path text : String) : Except FieldError Record :=
  (Update.decimal lib path text).outcome r

/-- Add a fresh element to a group; the answer holds the element too. -/
def appendElem (r : Record) (path : String) : Except FieldError (Record × Record) :=
  match (Update.appendElem path).run r with
  | .ok fresh next => .ok (next, fresh)
  | .error fault _ => .error fault

def uint (r : Record) (path : String) : Except FieldError UInt64 :=
  (r.locateInt path).map fun (_, _, _, s) => s.raw

def int (r : Record) (path : String) : Except FieldError Int :=
  (r.locateInt path).map fun (_, _, _, s) => Word.toSigned s.raw

/-- The symbol of a slot: the one it remembers, or the one of its raw value. -/
def symbolOf (symbols : Symbols) : Slot → Option String
  | .int raw symbol => if symbol != "" then some symbol else symbols.name? raw
  | _ => none

/-- The symbol of an enumeration field, when its value has one. -/
def enum (r : Record) (path : String) : Except FieldError (Option String) :=
  match r.locateInt path with
  | .error fault => .error fault
  | .ok (_, _, form, s) =>
    match form.symbols with
    | none => .error (.notEnumeration path)
    | some symbols => .ok (symbolOf symbols s)

def numberOf (isSigned : Bool) (raw : UInt64) : Int := if isSigned then Word.toSigned raw else raw.toNat

def decimalText (lib : DecimalLibrary) (isSigned : Bool) (scale : Nat) (raw : UInt64) : String :=
  lib.render (numberOf isSigned raw) scale

/-- The value of an integer field in decimal notation. -/
def decimal (r : Record) (lib : DecimalLibrary) (path : String) : Except FieldError String :=
  (r.locateInt path).map fun (_, _, form, s) => decimalText lib form.isSigned form.scale s.raw

def bytes (r : Record) (path : String) : Except FieldError Bytes :=
  (r.locateBytes path).map fun (_, s) => s.data

/-- The bytes of a byte string field without trailing zeros. -/
def text (r : Record) (path : String) : Except FieldError Bytes :=
  (r.bytes path).map (Text.dropTrailing (· == 0))

def sub (r : Record) (path : String) : Except FieldError Record :=
  match r.locate path with
  | .error fault => .error fault
  | .ok (_, .nested _ .once element, .struct slots) => .ok ⟨element, slots⟩
  | .ok (_, f, _) => .error (.wrongKind path f.kindWord)

def elems (r : Record) (path : String) : Except FieldError (List Record) :=
  match r.locate path with
  | .error fault => .error fault
  | .ok (_, .nested _ _ element, .elems items) => .ok (items.map fun slots => ⟨element, slots⟩)
  | .ok (_, f, _) => .error (.wrongKind path f.kindWord)

end TradeWire.Record

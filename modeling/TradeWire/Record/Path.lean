import TradeWire.Number.Literal
import TradeWire.Record.Basic

/-! Paths to fields, such as `Header.Number` or `Orders[2].Price`. -/

set_option autoImplicit false
set_option relaxedAutoImplicit false

namespace TradeWire

/-- Why a field cannot be reached, read or set. -/
inductive FieldError where
  | unknownField (owner path : String)
  | indexOutOfRange (path : String) (index : Int) (count : Nat)
  | addressesStructure (path : String)
  | wrongKind (path kind : String)
  | notEnumeration (path : String)
  | unknownSymbol (path symbol : String)
  | rawOutOfRange (path : String) (raw : UInt64)
  | intOutOfRange (path : String) (value : Int)
  | decimalOutOfRange (path text : String)
  /-- The reason is told by what reads decimals. -/
  | badDecimal (path text reason : String)
  | tooManyPlaces (path text : String) (scale : Nat)
deriving Repr, DecidableEq

namespace FieldError

def valueRange : String := "codec: value out of range: "

def kindMismatch : String := "codec: field kind mismatch: "

def message : FieldError → String
  | unknownField owner path => "codec: " ++ owner ++ " has no field " ++ Text.quote path
  | indexOutOfRange path index count =>
    valueRange ++ path ++ " index " ++ toString index ++ " of " ++ toString count
  | addressesStructure path => kindMismatch ++ path ++ " addresses a structure"
  | wrongKind path kind => kindMismatch ++ path ++ " is " ++ kind
  | notEnumeration path => kindMismatch ++ path ++ " is not an enumeration"
  | unknownSymbol path symbol =>
    "codec: unknown enumeration symbol: " ++ path ++ "=" ++ Text.quote symbol
  | rawOutOfRange path raw => valueRange ++ path ++ "=0x" ++ Text.Hex.ofNat raw.toNat
  | intOutOfRange path value => valueRange ++ path ++ "=" ++ toString value
  | decimalOutOfRange path text => valueRange ++ path ++ "=" ++ Text.quote text
  | badDecimal path text reason =>
    "codec: invalid decimal literal: " ++ path ++ "=" ++ Text.quote text ++ ": " ++ reason
  | tooManyPlaces path text scale =>
    "codec: invalid decimal literal: " ++ path ++ "=" ++ Text.quote text ++ ": more than " ++
      toString scale ++ " fractional digits"

end FieldError

namespace Record

/-- One step of a path: a field name, maybe with the number of an element. -/
structure Segment where
  name : String
  index : Option Int
deriving Repr, DecidableEq

def splitDots : List Char → List (List Char)
  | [] => [[]]
  | c :: rest =>
    if c == '.' then [] :: splitDots rest
    else
      match splitDots rest with
      | [] => [[c]]
      | part :: parts => (c :: part) :: parts

/-- Read one part of a path; an opened bracket must close at its end and hold an integer. -/
def parseSegment (part : List Char) : Option Segment :=
  match part.dropWhile (· != '[') with
  | [] => some ⟨String.ofList part, none⟩
  | _ :: inner =>
    if inner.getLast? == some ']' then
      match Literal.decimal (String.ofList inner.dropLast) with
      | .ok n => some ⟨String.ofList (part.takeWhile (· != '[')), some n⟩
      | .error _ => none
    else none

/-- A hop into the structure of a field, or into one element of it. -/
structure Hop where
  field : Nat
  item : Option Nat
deriving Repr, DecidableEq

/-- A field of a record: the hops to the owning instance and the position there. -/
structure Location where
  hops : List Hop
  field : Nat
deriving Repr, DecidableEq

def Location.below (hop : Hop) (l : Location) : Location := ⟨hop :: l.hops, l.field⟩

def resolveParts (path : String) : Layout → List Slot → List (List Char) → Except FieldError Location
  | l, _, [] => .error (.unknownField l.name path)
  | l, slots, part :: rest =>
    match parseSegment part with
    | none => .error (.unknownField l.name path)
    | some segment =>
      match l.lookup? segment.name with
      | none => .error (.unknownField l.name path)
      | some i =>
        if rest.isEmpty && segment.index.isNone then .ok ⟨[], i⟩
        else
          match l.fields[i]?, slots[i]?, segment.index with
          | some (.nested _ .once element), some (.struct inner), none =>
            (resolveParts path element inner rest).map (·.below ⟨i, none⟩)
          | some (.nested _ _ element), some (.elems items), some n =>
            if 0 ≤ n ∧ n < items.length then
              if rest.isEmpty then .error (.addressesStructure path)
              else (resolveParts path element (items.getD n.toNat []) rest).map (·.below ⟨i, some n.toNat⟩)
            else .error (.indexOutOfRange path n items.length)
          | _, _, _ => .error (.unknownField l.name path)

/-- Resolve a path. -/
def resolve (r : Record) (path : String) : Except FieldError Location :=
  resolveParts path r.layout r.slots (splitDots path.toList)

def follow : List Hop → Layout → List Slot → Option (Layout × List Slot)
  | [], l, slots => some (l, slots)
  | hop :: hops, l, slots =>
    match l.fields[hop.field]?, slots[hop.field]?, hop.item with
    | some (.nested _ _ element), some (.struct inner), none => follow hops element inner
    | some (.nested _ _ element), some (.elems items), some n =>
      (items[n]?).bind fun item => follow hops element item
    | _, _, _ => none

def at? (r : Record) (l : Location) : Option (Field × Slot) :=
  (follow l.hops r.layout r.slots).bind fun (owner, slots) =>
    match owner.fields[l.field]?, slots[l.field]? with
    | some f, some s => some (f, s)
    | _, _ => none

def modifySlots (change : Slot → Slot) : List Hop → Nat → List Slot → List Slot
  | [], i, slots => slots.modify i change
  | hop :: hops, i, slots =>
    slots.modify hop.field fun s =>
      match s, hop.item with
      | .struct inner, none => .struct (modifySlots change hops i inner)
      | .elems items, some n => .elems (items.modify n (modifySlots change hops i))
      | s, _ => s

/-- Change the slot at a location and nothing else. -/
def modify (r : Record) (l : Location) (change : Slot → Slot) : Record :=
  { r with slots := modifySlots change l.hops l.field r.slots }

/-- Resolve a path to a location with its field and slot. -/
def locate (r : Record) (path : String) : Except FieldError (Location × Field × Slot) :=
  match r.resolve path with
  | .error fault => .error fault
  | .ok l =>
    match r.at? l with
    | some (f, s) => .ok (l, f, s)
    | none => .error (.unknownField r.name path)

def fieldInfo (r : Record) (path : String) : Except FieldError Field :=
  (r.locate path).map fun (_, f, _) => f

end Record

end TradeWire

import TradeWire.Layout.Compile

/-! Records: a layout paired with a tree of slots, one for each field. -/

set_option autoImplicit false
set_option relaxedAutoImplicit false

namespace TradeWire

inductive Slot where
  | pad
  | int (raw : UInt64) (symbol : String)
  | bytes (data : Bytes)
  | struct (slots : List Slot)
  | elems (items : List (List Slot))
deriving Repr

namespace Slot

def raw : Slot → UInt64
  | int raw _ => raw
  | _ => 0

def data : Slot → Bytes
  | bytes data => data
  | _ => []

/-- Replace the raw number and leave a remembered symbol as it is. -/
def withRaw (raw : UInt64) : Slot → Slot
  | int _ symbol => int raw symbol
  | s => s

def count : Slot → Nat
  | bytes data => data.length
  | elems items => items.length
  | _ => 0

end Slot

def rawAt (slots : List Slot) (i : Nat) : UInt64 := ((slots[i]?).map (·.raw)).getD 0

def setRawAt (slots : List Slot) (i : Nat) (raw : UInt64) : List Slot := slots.modify i (·.withRaw raw)

/-- The raw number of a slot inside a nested structure. -/
def nestedRaw (slots : List Slot) (i j : Nat) : UInt64 :=
  match slots[i]? with
  | some (.struct inner) => rawAt inner j
  | _ => 0

/-- Replace the raw number of a slot inside a nested structure. -/
def setNestedRaw (slots : List Slot) (i j : Nat) (raw : UInt64) : List Slot :=
  slots.modify i fun
    | .struct inner => .struct (setRawAt inner j raw)
    | s => s

mutual

/-- The slots of a fresh instance: fields at their initial values, arrays full, groups empty; the
header of a message announces its length and template id. -/
def Layout.initialSlots : Layout → List Slot
  | .mk name message size fields =>
    let slots := initialFieldSlots fields
    match message with
    | none => slots
    | some info =>
      let length := Word.ofInt (Layout.mk name message size fields).initialBodyLen
      let numbered := setNestedRaw slots info.header.field info.header.bodyLen length
      setNestedRaw numbered info.header.field info.header.templateId (UInt64.ofNat info.templateId)

def initialFieldSlots : List Field → List Slot
  | [] => []
  | f :: rest => f.initialSlot :: initialFieldSlots rest

def Field.initialSlot : Field → Slot
  | .primitive _ _ _ (.int form) => .int form.initial ""
  | .primitive _ _ _ .pad => .pad
  | .primitive _ _ _ (.bytes initial) => .bytes (initial.getD [])
  | .primitive _ _ _ (.varBytes _) => .bytes []
  | .nested _ .once element => .struct element.initialSlots
  | .nested _ (.array count) element => .elems (List.replicate count element.initialSlots)
  | .nested _ (.group ..) _ => .elems []

end

mutual

/-- Equality of raw values; remembered symbols do not count. -/
def Slot.same : Slot → Slot → Bool
  | .pad, .pad => true
  | .int a _, .int b _ => a == b
  | .bytes a, .bytes b => a == b
  | .struct a, .struct b => sameSlots a b
  | .elems a, .elems b => sameItems a b
  | _, _ => false

def sameSlots : List Slot → List Slot → Bool
  | [], [] => true
  | a :: as, b :: bs => a.same b && sameSlots as bs
  | _, _ => false

/-- Equality of the raw values of two lists of elements. -/
def sameItems : List (List Slot) → List (List Slot) → Bool
  | [], [] => true
  | a :: as, b :: bs => sameSlots a b && sameItems as bs
  | _, _ => false

end

mutual

/-- Strip trailing zero bytes from every fixed byte string, at any depth. -/
def Layout.trimSlots : Layout → List Slot → List Slot
  | .mk _ _ _ fields, slots => trimFieldSlots fields slots

/-- Strip the slots of several fields. -/
def trimFieldSlots : List Field → List Slot → List Slot
  | f :: fs, s :: ss => f.trimSlot s :: trimFieldSlots fs ss
  | _, slots => slots

def Field.trimSlot : Field → Slot → Slot
  | .primitive _ _ _ (.bytes _), .bytes data => .bytes (Text.dropTrailing (· == 0) data)
  | .nested _ _ element, .struct slots => .struct (element.trimSlots slots)
  | .nested _ _ element, .elems items => .elems (items.map element.trimSlots)
  | _, s => s

end

/-- Set every counter from the number of bytes or elements it governs. -/
def setCounters (fields : List Field) (slots : List Slot) : List Slot :=
  (fields.zip slots).foldl
    (fun acc (f, s) =>
      match f.counter? with
      | some i => setRawAt acc i (UInt64.ofNat s.count)
      | none => acc)
    slots

mutual

/-- Set the counters of an instance and of everything below it. -/
def Layout.syncSlots : Layout → List Slot → List Slot
  | .mk _ _ _ fields, slots => setCounters fields (syncFieldSlots fields slots)

def syncFieldSlots : List Field → List Slot → List Slot
  | f :: fs, s :: ss => f.syncSlot s :: syncFieldSlots fs ss
  | _, slots => slots

def Field.syncSlot : Field → Slot → Slot
  | .nested _ _ element, .struct slots => .struct (element.syncSlots slots)
  | .nested _ _ element, .elems items => .elems (items.map element.syncSlots)
  | _, s => s

end

structure Record where
  layout : Layout
  slots : List Slot

namespace Record

def new (l : Layout) : Record := ⟨l, l.initialSlots⟩

def name (r : Record) : String := r.layout.name

/-- The same structure with the same raw values. Structures of one table are told apart by name. -/
def equal (r other : Record) : Bool :=
  r.layout.name == other.layout.name && sameSlots r.slots other.slots

/-- Strip trailing zero bytes from every fixed byte string. -/
def trim (r : Record) : Record := { r with slots := r.layout.trimSlots r.slots }

def syncCounters (r : Record) : Record := { r with slots := r.layout.syncSlots r.slots }

/-- The number of bytes a run takes, by the counters of the record; a counter above its bound counts as
the bound. -/
def runSize (slots : List Slot) (placed : PlacedRun (Field × Nat)) : Int :=
  match placed.run with
  | .single (.primitive _ _ size (.varBytes counter), _) => (min (rawAt slots counter).toNat size : Nat)
  | .single (.nested _ (.group counter _ most) _, _) =>
    Word.mul (min (rawAt slots counter).toNat most : Nat) placed.width
  | _ => placed.width

def encodedSize (r : Record) : Int :=
  if r.layout.size.isStatic then r.layout.size.fixed
  else r.layout.runs.foldl (fun sum placed => Word.add sum (runSize r.slots placed)) 0

/-- Let the header of a message announce its encoded size. A message of constant size and a component
stay as they are. -/
def updateLength (r : Record) : Record :=
  match r.layout.message with
  | none => r
  | some info =>
    if r.layout.size.isStatic then r
    else
      { r with slots := setNestedRaw r.slots info.header.field info.header.bodyLen (Word.ofInt r.encodedSize) }

/-- The body length that the header of a message announces. -/
def bodyLen? (r : Record) : Option UInt64 :=
  r.layout.message.map fun info => nestedRaw r.slots info.header.field info.header.bodyLen

end Record

end TradeWire

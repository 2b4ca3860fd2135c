import TradeWire.Protocol.Basic
import TradeWire.Record.Access

/-! Which mandatory fields of a message and of the elements of its groups hold no value. -/

set_option autoImplicit false
set_option relaxedAutoImplicit false

namespace TradeWire

/-- Why a record is not a complete message. -/
inductive ValidationError where
  | notMessage
  | missingField (container field : String)
  | field (fault : FieldError)
deriving Repr, DecidableEq

def ValidationError.message : ValidationError → String
  | notMessage => "protocol: record is not a message"
  | missingField container name =>
    "protocol: " ++ container ++ " missing mandatory field " ++ name
  | field fault => fault.message

namespace Protocol

/-- The path to a field of this name: one of the record, or one of the first structure in it that has
such a field. -/
def fieldPath? (l : Layout) (name : String) : Option String :=
  if (l.lookup? name).isSome then some name
  else
    (l.fields.find? fun
      | .nested _ .once element => (element.lookup? name).isSome
      | _ => false).map fun f => f.name ++ "." ++ name

/-- Whether a slot lacks a value: an integer at its no-value number, unless it is a counter, or a byte
string of zeros. -/
def lacksValue (f : Field) (slot : Slot) : Bool :=
  match f with
  | .primitive _ _ _ (.int form) => !form.governs && form.noValue == some slot.raw
  | .primitive _ _ _ (.bytes _) => slot.data.all (· == 0)
  | .primitive _ _ _ (.varBytes _) => slot.data.all (· == 0)
  | _ => false

/-- Check one mandatory field; a name the record does not know asks for nothing. -/
def validateField (container : String) (r : Record) (name : String) : Except ValidationError Unit :=
  match fieldPath? r.layout name with
  | none => .ok ()
  | some path =>
    match r.locate path with
    | .error fault => .error (.field fault)
    | .ok (_, f, slot) => if lacksValue f slot then .error (.missingField container name) else .ok ()

def validateFields (container : String) (r : Record) : List String → Except ValidationError Unit
  | [] => .ok ()
  | name :: rest =>
    match validateField container r name with
    | .error fault => .error fault
    | .ok () => validateFields container r rest

def mandatoryFields (p : Protocol) (container : String) : List String := (p.mandatory.lookup container).getD []

/-- Run a check on each member of a list, up to the first that fails. -/
def checkAll {α ε : Type} (check : α → Except ε Unit) : List α → Except ε Unit
  | [] => .ok ()
  | a :: rest =>
    match check a with
    | .error fault => .error fault
    | .ok () => checkAll check rest

/-- Whether a name leads, as a path, to the field that has it. -/
def isPlainName (name : String) : Bool := name.toList.all fun c => c != '.' && c != '['

mutual

def validateSlots (p : Protocol) (container : String) : Layout → List Slot → Except ValidationError Unit
  | .mk name message size fields, slots =>
    let r : Record := ⟨.mk name message size fields, slots⟩
    match validateFields container r (p.mandatoryFields container) with
    | .error fault => .error fault
    | .ok () => validateGroups p container r fields slots

/-- Check the elements of the groups among some fields of record `r`. -/
def validateGroups (p : Protocol) (container : String) (r : Record) :
    List Field → List Slot → Except ValidationError Unit
  | f :: fs, s :: ss =>
    match validateGroup p container r f s with
    | .error fault => .error fault
    | .ok () => validateGroups p container r fs ss
  | _, _ => .ok ()

/-- Check the elements of one group, which is addressed by its name. A name that is no plain one may lead
to an array inside a structure; the elements of that array have no groups. -/
def validateGroup (p : Protocol) (container : String) (r : Record) : Field → Slot → Except ValidationError Unit
  | .nested name (.group _ _ _) element, .elems items =>
    let inner := container ++ "." ++ name
    match r.elems name with
    | .error fault => .error (.field fault)
    | .ok found =>
      if isPlainName name then checkAll (validateSlots p inner element) items
      else checkAll (fun e => validateFields inner e (p.mandatoryFields inner)) found
  | _, _ => .ok ()

end

def validate (p : Protocol) (r : Record) : Except ValidationError Unit :=
  if r.layout.isMessage then validateSlots p r.name r.layout r.slots else .error .notMessage

end Protocol

end TradeWire

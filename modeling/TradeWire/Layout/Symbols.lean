import TradeWire.Number.Literal
import TradeWire.Schema.Error
import TradeWire.Schema.Model
import TradeWire.Text.Utf8

/-! Symbolic names: the first one declared for a value is shown, the last declaration of a name is looked up. -/

set_option autoImplicit false
set_option relaxedAutoImplicit false

namespace TradeWire

structure Symbol where
  name : String
  value : UInt64
deriving Repr, DecidableEq

/-- The symbols of an enumerated type, in the order of declaration. -/
structure Symbols where
  type : String
  values : List Symbol
deriving Repr, DecidableEq

namespace Symbols

/-- The name of a raw value. -/
def name? (s : Symbols) (raw : UInt64) : Option String :=
  (s.values.find? (·.value == raw)).map (·.name)

/-- The raw value of a name. -/
def value? (s : Symbols) (name : String) : Option UInt64 :=
  let wanted := Text.lower (Text.trim name)
  (s.values.reverse.find? fun symbol => Text.lower symbol.name == wanted).map (·.value)

/-- The name of the value that stands for no value, unless the type declares one. -/
def noValueName : String := "NoValue"

end Symbols

namespace Schema.DataType

/-- The raw value of an integer literal: an unsigned value as it is, a negative one in two's
complement, and a bit pattern of a signed type sign-extended from its width. -/
def rawLiteral? (literal : String) (size : Nat) (isSigned : Bool) : Option UInt64 :=
  let s := Text.trim literal
  if s.toList.head? == some '-' then
    match Literal.integer s with
    | .ok n => some (Word.ofInt n)
    | .error _ => none
  else
    match Literal.unsigned s with
    | .ok n =>
      let raw := UInt64.ofNat n
      some (if isSigned then Word.signExtend raw size else raw)
    | .error _ => none

/-- The raw value of a declared value. -/
def rawValue (t : DataType) (v : ValidValue) : Except SchemaError UInt64 :=
  if t.isChar then
    match Text.encodeUtf8 v.value with
    | [b] => .ok (UInt64.ofNat b.toNat)
    | _ => .error (.general (.charNotOneByte t.name v.value))
  else
    match rawLiteral? v.value t.size t.isSigned with
    | some raw => .ok raw
    | none => .error (.general (.invalidValue t.name (Text.trim v.value)))

/-- The raw value that stands for no value, where the type has one. -/
def rawNoValue (t : DataType) : Except SchemaError (Option UInt64) :=
  let literal := Text.trim t.noValue
  if literal == "" then .ok none
  else
    match rawLiteral? literal t.size (t.isSigned && !t.isChar) with
    | some raw => .ok (some raw)
    | none => .error (.general (.invalidNoValue t.name literal))

/-- What a fresh field of the type holds: no value, except that counters start at zero. -/
def initialValue (t : DataType) (noValue : Option UInt64) : UInt64 :=
  if t.isCounter then 0 else noValue.getD 0

def declaredSymbols (t : DataType) : List ValidValue → Except SchemaError (List Symbol)
  | [] => .ok []
  | v :: rest =>
    match t.rawValue v with
    | .error fault => .error fault
    | .ok raw =>
      match t.declaredSymbols rest with
      | .error fault => .error fault
      | .ok more => .ok (⟨v.name, raw⟩ :: more)

/-- The symbols of an enumerated type, completed by a name for no value. -/
def symbols (t : DataType) (noValue : Option UInt64) : Except SchemaError Symbols :=
  match t.declaredSymbols t.values with
  | .error fault => .error fault
  | .ok declared =>
    match noValue with
    | none => .ok ⟨t.name, declared⟩
    | some raw =>
      if declared.any (·.value == raw) then .ok ⟨t.name, declared⟩
      else .ok ⟨t.name, declared ++ [⟨Symbols.noValueName, raw⟩]⟩

end Schema.DataType

end TradeWire

import TradeWire.Record.Access
import TradeWire.Text.Quoted

/-! The text of a record: one line for each field, indented by depth. -/

set_option autoImplicit false
set_option relaxedAutoImplicit false

namespace TradeWire

def indent (depth : Nat) : String := String.ofList (List.replicate (2 * depth) ' ')

/-- The raw value of an integer field: a character, a signed or an unsigned number. -/
def rawText (form : IntForm) (raw : UInt64) : String :=
  if form.isChar then Text.quoteChar (Char.ofNat (raw.toNat % 256))
  else toString (Record.numberOf form.isSigned raw)

def intText (form : IntForm) (slot : Slot) : String :=
  let raw := rawText form slot.raw
  match form.symbols with
  | some symbols =>
    match Record.symbolOf symbols slot with
    | some symbol => if symbol == "" then raw else symbol ++ " (" ++ raw ++ ")"
    | none => raw
  | none =>
    if form.noValue == some slot.raw then "<none> (" ++ raw ++ ")"
    else if 0 < form.scale then Record.decimalText .standard form.isSigned form.scale slot.raw
    else raw

mutual

def Layout.lines (depth : Nat) : Layout → List Slot → List String
  | .mk _ _ _ fields, slots => fieldLines depth fields slots

def fieldLines (depth : Nat) : List Field → List Slot → List String
  | f :: fs, s :: ss => f.lines depth s ++ fieldLines depth fs ss
  | _, _ => []

/-- The lines of one field; padding has none. -/
def Field.lines (depth : Nat) : Field → Slot → List String
  | .primitive name _ _ (.int form), s => [indent depth ++ name ++ ": " ++ intText form s]
  | .primitive _ _ _ .pad, _ => []
  | .primitive name _ _ _, s =>
    [indent depth ++ name ++ ": " ++ Text.quoteBytes (Text.dropTrailing (· == 0) s.data)]
  | .nested name _ element, .struct slots =>
    (indent depth ++ name) :: Layout.lines (depth + 1) element slots
  | .nested name _ element, .elems items =>
    (items.map (Layout.lines (depth + 1) element)).zipIdx.flatMap fun (below, i) =>
      (indent depth ++ name ++ "[" ++ toString i ++ "]") :: below
  | .nested .., _ => []

end

/-- The text of a record, a line for its name and one for each field. -/
def Record.format (r : Record) : String :=
  String.join ((r.name :: r.layout.lines 1 r.slots).map (· ++ "\n"))

end TradeWire

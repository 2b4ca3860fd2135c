import TradeWire.Markup.Token

/-! The root element of a markup document; what follows its end is never looked at. -/

set_option autoImplicit false
set_option relaxedAutoImplicit false

namespace TradeWire.Markup

/-- An element whose end tag is still to come, with its children so far in reverse. -/
structure OpenElement where
  name : Name
  attributes : List Attribute
  children : List Element
deriving Repr

def OpenElement.close (e : OpenElement) : Element := .mk e.name e.attributes e.children.reverse

/-- Put a finished element below the innermost open one; with none open it is the root. -/
def attach (e : Element) : List OpenElement → List OpenElement ⊕ Element
  | [] => .inr e
  | parent :: outer => .inl ({ parent with children := e :: parent.children } :: outer)

/-- Read tokens until the root element is complete. Every token takes a byte, so the number of bytes
is fuel enough. -/
def readRoot (fuel : Nat) (stack : List OpenElement) (bytes : Bytes) : Except Fault Element :=
  match fuel with
  | 0 => .error .unexpectedEnd
  | fuel + 1 =>
    match readToken bytes with
    | .error fault => .error fault
    | .ok (.filler, rest) => readRoot fuel stack rest
    | .ok (.opening name attributes true, rest) =>
      match attach (.mk name attributes []) stack with
      | .inl more => readRoot fuel more rest
      | .inr root => .ok root
    | .ok (.opening name attributes false, rest) => readRoot fuel (⟨name, attributes, []⟩ :: stack) rest
    | .ok (.closing name, rest) =>
      match stack with
      | [] => .error .unbalanced
      | innermost :: outer =>
        if innermost.name != name then .error .unbalanced
        else
          match attach innermost.close outer with
          | .inl more => readRoot fuel more rest
          | .inr root => .ok root

def root (bytes : Bytes) : Except Fault Element := readRoot (bytes.length + 1) [] bytes

end TradeWire.Markup

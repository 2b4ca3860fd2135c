/-! The element tree of a markup document: names, attributes and child elements. -/

set_option autoImplicit false
set_option relaxedAutoImplicit false

namespace TradeWire.Markup

/-- A name, with the namespace mark in front of its colon. -/
structure Name where
  space : String
  base : String
deriving Repr, DecidableEq

structure Attribute where
  name : Name
  value : String
deriving Repr, DecidableEq

/-- An element with its attributes and its child elements, both in document order. -/
inductive Element where
  | mk (name : Name) (attributes : List Attribute) (children : List Element)
deriving Repr

namespace Element

def name : Element → Name
  | mk name _ _ => name

def attributes : Element → List Attribute
  | mk _ attributes _ => attributes

def children : Element → List Element
  | mk _ _ children => children

/-- The name without its namespace mark, by which elements are told apart. -/
def tag (e : Element) : String := e.name.base

/-- The value of the last attribute with this name, whatever its namespace mark. -/
def value? (e : Element) (base : String) : Option String :=
  (e.attributes.reverse.find? (·.name.base == base)).map (·.value)

/-- The value of an attribute; an absent one counts as empty. -/
def value (e : Element) (base : String) : String := (e.value? base).getD ""

def childrenNamed (e : Element) (tag : String) : List Element :=
  e.children.filter (·.tag == tag)

/-- The grandchildren with tag `inner` below all children with tag `outer`. -/
def nestedNamed (e : Element) (outer inner : String) : List Element :=
  (e.childrenNamed outer).flatMap (·.childrenNamed inner)

end Element

end TradeWire.Markup

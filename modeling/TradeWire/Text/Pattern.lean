/-! Regular expressions over characters, matched at the front of a text in their order of preference. -/

set_option autoImplicit false
set_option relaxedAutoImplicit false

namespace TradeWire

inductive Pattern where
  | nothing
  /-- One character of a class. -/
  | one (holds : Char → Bool)
  | seq (first second : Pattern)
  /-- The second alternative is tried only where the first one leads nowhere. -/
  | either (first second : Pattern)
  /-- As many repetitions as there may be, each of one character at least. -/
  | many (p : Pattern)

namespace Pattern

def some (p : Pattern) : Pattern := .seq p (.many p)

def optional (p : Pattern) : Pattern := .either p .nothing

/-- What may be left after repetitions of a step, more of them first. -/
def repeated (step : List Char → List (List Char)) : Nat → List Char → List (List Char)
  | 0, cs => [cs]
  | fuel + 1, cs => ((step cs).filter (·.length < cs.length)).flatMap (repeated step fuel) ++ [cs]

/-- What a match may leave of a text, in order of preference. -/
def rests : Pattern → List Char → List (List Char)
  | nothing, cs => [cs]
  | one _, [] => []
  | one holds, c :: cs => if holds c then [cs] else []
  | seq p q, cs => (p.rests cs).flatMap q.rests
  | either p q, cs => p.rests cs ++ q.rests cs
  | many p, cs => repeated p.rests cs.length cs

/-- What is matched at the front of a text, and what is left of it. -/
def first (p : Pattern) (cs : List Char) : Option (List Char × List Char) :=
  (p.rests cs).head?.map fun rest => (cs.take (cs.length - rest.length), rest)

end Pattern

end TradeWire

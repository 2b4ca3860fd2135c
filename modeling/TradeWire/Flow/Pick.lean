import TradeWire.Flow.Tree
import TradeWire.Number.Literal
import TradeWire.Record.Access

/-! One way through a response tree: a sibling on each level, down to a level where none is eligible. -/

set_option autoImplicit false
set_option relaxedAutoImplicit false

namespace TradeWire

/-- Why a condition has no truth value. -/
inductive ConditionError where
  | notEvaluable (text : String)
  | field (fault : FieldError)
deriving Repr, DecidableEq

def ConditionError.message : ConditionError → String
  | notEvaluable text => "flow: condition cannot be evaluated: " ++ Text.quote text
  | field fault => fault.message

namespace Condition

/-- Whether a value of a condition stands for the raw value of a field: as one of its symbols, as an
integer, or as its character. -/
def hits (form : IntForm) (raw : UInt64) (value : String) : Bool :=
  (form.symbols.bind (·.value? value)) == some raw ||
    (match Literal.integer value with
      | .ok n => Word.ofInt n == raw
      | .error _ => false) ||
    (form.isChar &&
      match Text.encodeUtf8 value with
      | [b] => UInt64.ofNat b.toNat == raw
      | _ => false)

def Test.holds (t : Test) (r : Record) : Except FieldError Bool :=
  (r.locateInt t.field).map fun (_, _, form, slot) => t.values.any (hits form slot.raw) != t.negated

def holds (c : Condition) (r : Record) : Except ConditionError Bool :=
  match c.test with
  | none => .error (.notEvaluable c.text)
  | some t =>
    match t.holds r with
    | .error fault => .error (.field fault)
    | .ok answer => .ok answer

end Condition

namespace Flow

/-- How to choose among siblings: any of them, or the first whose condition holds. -/
inductive Policy where
  | random
  | firstMatch
deriving Repr, DecidableEq, Inhabited

namespace Policy

def word : Policy → String
  | random => "random"
  | firstMatch => "match"

/-- The policy of a word, whatever its case and the blanks around it. -/
def ofWord? (s : String) : Option Policy :=
  [random, firstMatch].find? (·.word == Text.lower (Text.trim s))

def unknownMessage (s : String) : String := "flow: unknown policy " ++ Text.quote s

end Policy

inductive Selection where
  | position (index : Nat)
  | firstEligible
deriving Repr, DecidableEq

/-- A supply of random numbers, used from the front; an empty supply gives zeros. -/
abbrev Draws := List Nat

/-- The selection a policy makes on a level of `count` siblings. -/
def Policy.selection (p : Policy) (count : Nat) (draws : Draws) : Selection × Draws :=
  match p with
  | random => (.position (draws.headD 0 % count), draws.tail)
  | firstMatch => (.firstEligible, draws)

/-- A node is eligible when it has no condition, one that cannot be evaluated, or one that holds. -/
def Node.isEligible (n : Node) (previous : Record) : Except FieldError Bool :=
  match n.condition?.bind (·.test) with
  | none => .ok true
  | some t => t.holds previous

/-- Whether to take a node; otherwise the selection goes on to the siblings behind it. -/
def Selection.takes (s : Selection) (n : Node) (previous : Record) : Except FieldError (Option Selection) :=
  match s with
  | position 0 => .ok none
  | position (index + 1) => .ok (some (position index))
  | firstEligible => (n.isEligible previous).map fun eligible => if eligible then none else some firstEligible

/-- Why a run ends before its last level. -/
inductive RunError (ε : Type) where
  | condition (fault : FieldError)
  | emit (fault : ε)
deriving Repr

/-- An emitter answers with a record or with none; its state is passed along. -/
abbrev Emitter (σ ε : Type) := Response → Record → σ → σ × Except ε (Option Record)

variable {σ ε : Type}

mutual

def Node.run (policy : Policy) (emit : Emitter σ ε) :
    Node → Record → Draws → σ → σ × Except (RunError ε) Unit
  | .field _ _ children, previous, draws, state =>
    let (selection, draws) := policy.selection children.length draws
    runSiblings policy emit children selection previous draws state
  | .response message _ children, previous, draws, state =>
    match emit message previous state with
    | (state, .error fault) => (state, .error (.emit fault))
    | (state, .ok answer) =>
      let (selection, draws) := policy.selection children.length draws
      runSiblings policy emit children selection (answer.getD previous) draws state

/-- Take the selected one of some siblings, if there is one. -/
def runSiblings (policy : Policy) (emit : Emitter σ ε) :
    List Node → Selection → Record → Draws → σ → σ × Except (RunError ε) Unit
  | [], _, _, _, state => (state, .ok ())
  | n :: rest, selection, previous, draws, state =>
    match selection.takes n previous with
    | .error fault => (state, .error (.condition fault))
    | .ok none => n.run policy emit previous draws state
    | .ok (some selection) => runSiblings policy emit rest selection previous draws state

end

/-- Choose one node on each level, starting from a request. -/
def run (policy : Policy) (emit : Emitter σ ε) (nodes : List Node) (request : Record) (draws : Draws)
    (state : σ) : σ × Except (RunError ε) Unit :=
  let (selection, draws) := policy.selection nodes.length draws
  runSiblings policy emit nodes selection request draws state

end Flow

end TradeWire

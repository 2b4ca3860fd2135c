import TradeWire.Number.Literal
import TradeWire.Text.LowerCase
import TradeWire.Text.Blank

/-! Log levels and the logger settings, which the environment may override. -/

set_option autoImplicit false
set_option relaxedAutoImplicit false

namespace TradeWire.Logging

/-- How much a log line matters; `disabled` lets none through. -/
inductive Level where
  | trace
  | debug
  | info
  | warn
  | error
  | disabled
deriving Repr, DecidableEq

namespace Level

def word : Level → String
  | trace => "trace"
  | debug => "debug"
  | info => "info"
  | warn => "warn"
  | error => "error"
  | disabled => "disabled"

def rank : Level → Nat
  | trace => 0
  | debug => 1
  | info => 2
  | warn => 3
  | error => 4
  | disabled => 5

def names : List (String × Level) := [
  ("trace", trace), ("diagnostics", trace), ("debug", debug), ("info", info), ("warn", warn),
  ("warning", warn), ("error", error), ("disabled", disabled), ("disable", disabled),
  ("off", disabled), ("none", disabled), ("inactive", disabled)]

/-- The level of a name, whatever its case and the blanks around it. -/
def ofName? (s : String) : Option Level := names.lookup (Text.lower (Text.trim s))

end Level

structure Settings where
  level : Level
  timestamp : Bool
  noColor : Bool
deriving Repr, DecidableEq

inductive Profile where
  | runtime
  | test
deriving Repr, DecidableEq

/-- The profile of a word; every other word stands for the runtime. -/
def Profile.ofWord (s : String) : Profile := if s == "test" then test else runtime

/-- What the environment asks for; an empty text asks for nothing. -/
structure Environment where
  level : String
  timestamp : String
  noColor : String
deriving Repr, DecidableEq

namespace Settings

/-- The settings of a profile, before the environment is asked. -/
def ofProfile (p : Profile) (noColor : Bool) : Settings :=
  match p with
  | .runtime => ⟨.info, true, noColor⟩
  | .test => ⟨.debug, false, noColor⟩

/-- Let the environment override settings; what it does not name or cannot be read stays. -/
def override (s : Settings) (env : Environment) : Settings where
  level := (Level.ofName? env.level).getD s.level
  timestamp := (Literal.truth? (Text.trim env.timestamp)).getD s.timestamp
  noColor := (Literal.truth? (Text.trim env.noColor)).getD s.noColor

end Settings

end TradeWire.Logging

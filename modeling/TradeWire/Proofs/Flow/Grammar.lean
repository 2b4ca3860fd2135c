import Mathlib.Data.ENat.Basic
import TradeWire.Proofs.Flow.Tokens

/-! The grammar of conditions over the tokens of the lexer, and the parsers that follow it. -/

set_option autoImplicit false
set_option relaxedAutoImplicit false

namespace TradeWire.Condition

/-- The tokens of a text: at every place the first rule that matches makes one, and blanks make none. -/
inductive Lexes (unquote : List Char → Option (List Char)) : List Char → List Token → Prop
  | nil : Lexes unquote [] []
  | blank {cs text rest : List Char} {ts : List Token} (found : front cs = some (.blank, text, rest))
      (more : Lexes unquote rest ts) : Lexes unquote cs ts
  | token {cs text rest : List Char} {kind : TokenKind} {shown : String} {ts : List Token}
      (found : front cs = some (kind, text, rest)) (solid : kind ≠ .blank)
      (shows : content unquote kind text = some shown) (more : Lexes unquote rest ts) :
      Lexes unquote cs (⟨kind, shown⟩ :: ts)

/-- One value, or several with `or` or a comma between any two. -/
inductive DerivesValues : List Token → List String → Prop
  | one {t : Token} (value : t.isValue = true) : DerivesValues [t] [t.text]
  | more {t separator : Token} {ts : List Token} {vs : List String} (value : t.isValue = true)
      (separates : separator.text = "or" ∨ separator.text = ",") (rest : DerivesValues ts vs) :
      DerivesValues (t :: separator :: ts) (t.text :: vs)

/-- A name, the word `is`, maybe the word `not`, and values. A `not` that may stand before the values is taken
for it, whatever follows. -/
inductive Derives : List Token → Test → Prop
  | plain {field word : Token} {ts : List Token} {vs : List String} (named : field.kind = .name)
      (is_ : word.text = "is") (unnegated : ∀ t ∈ ts.head?, t.text ≠ "not") (values : DerivesValues ts vs) :
      Derives (field :: word :: ts) ⟨field.text, false, vs⟩
  | negated {field word negation : Token} {ts : List Token} {vs : List String} (named : field.kind = .name)
      (is_ : word.text = "is") (not_ : negation.text = "not") (values : DerivesValues ts vs) :
      Derives (field :: word :: negation :: ts) ⟨field.text, true, vs⟩

/-- The parser reads exactly what the grammar derives from the tokens of a text, up to a number of values. How
quoted texts are unquoted is left to it. -/
structure Parser.Follows (parser : Parser) (unquote : List Char → Option (List Char)) (limit : ℕ∞) : Prop where
  sound : ∀ text t, parser text = some t →
    ∃ ts, Lexes unquote text.toList ts ∧ Derives ts t ∧ (t.values.length : ℕ∞) ≤ limit
  complete : ∀ text t ts, Lexes unquote text.toList ts → Derives ts t → (t.values.length : ℕ∞) ≤ limit →
    parser text = some t

/-! ## The standard parser -/

theorem DerivesValues.ne_nil {ts : List Token} {vs : List String} (derives : DerivesValues ts vs) :
    ts ≠ [] ∧ vs ≠ [] := by
  cases derives <;> exact ⟨List.cons_ne_nil _ _, List.cons_ne_nil _ _⟩

end TradeWire.Condition

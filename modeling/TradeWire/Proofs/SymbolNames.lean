import TradeWire.Proofs.Data.Sorting
import TradeWire.Proofs.Enumerations
import TradeWire.Proofs.Layout.Constants
import TradeWire.Proofs.Record.Resolution
import TradeWire.Proofs.Schema.Accepted

/-! A symbol that is shown sets the number back unless another symbol is told apart by case alone. -/

set_option autoImplicit false
set_option relaxedAutoImplicit false

namespace TradeWire

open Markup Schema

/-- The last symbol of a name, whatever its case. -/
def Symbols.IsLastNamed (symbols : Symbols) (name : String) (symbol : Symbol) : Prop :=
  ∃ earlier later, symbols.values = earlier ++ symbol :: later ∧ Text.lower symbol.name = Text.lower name ∧
    ∀ other ∈ later, Text.lower other.name ≠ Text.lower name

/-- A value is found by the last name that is alike, whatever the blanks around the name that is looked up. -/
theorem Symbols.value?_eq_some {symbols : Symbols} {name : String} {raw : UInt64} :
    symbols.value? name = some raw ↔
      ∃ symbol, symbols.IsLastNamed (Text.trim name) symbol ∧ symbol.value = raw := by
  unfold Symbols.value?
  simp only [Option.map_eq_some_iff, List.find?_eq_some_iff_append, beq_iff_eq]
  constructor
  · rintro ⟨symbol, ⟨named, later, earlier, split, others⟩, value⟩
    refine ⟨symbol, ⟨earlier.reverse, later.reverse, ?_, named, ?_⟩, value⟩
    · rw [← List.reverse_reverse symbols.values, split]
      simp
    · intro other inside
      simpa using others other (List.mem_reverse.mp inside)
  · rintro ⟨symbol, ⟨earlier, later, split, named, others⟩, value⟩
    refine ⟨symbol, ⟨named, later.reverse, earlier.reverse, ?_, ?_⟩, value⟩
    · rw [split]
      simp
    · intro other inside
      simpa using others other (List.mem_reverse.mp inside)

/-- A symbol without blanks around its name is found by it, or a later one of the same name is. -/
theorem Symbols.value?_of_mem {symbols : Symbols} {symbol : Symbol} (member : symbol ∈ symbols.values)
    (clean : Text.trim symbol.name = symbol.name) :
    ∃ last, symbols.IsLastNamed symbol.name last ∧ symbols.value? symbol.name = some last.value := by
  have found : (symbols.values.reverse.find? fun other =>
      Text.lower other.name == Text.lower symbol.name).isSome = true := by
    rw [List.find?_isSome]
    exact ⟨symbol, List.mem_reverse.mpr member, beq_self_eq_true _⟩
  obtain ⟨first, known⟩ := Option.isSome_iff_exists.mp found
  have value : symbols.value? symbol.name = some first.value := by
    simp only [Symbols.value?, clean, known, Option.map_some]
  obtain ⟨last, named, same⟩ := Symbols.value?_eq_some.mp value
  rw [clean] at named
  exact ⟨last, named, by rw [value, same]⟩

private theorem Symbols.name?_eq_some {symbols : Symbols} {raw : UInt64} {name : String}
    (shown : symbols.name? raw = some name) : ∃ symbol ∈ symbols.values, symbol.name = name ∧ symbol.value = raw := by
  obtain ⟨symbol, first, named⟩ := Option.map_eq_some_iff.mp shown
  have same := List.find?_some first
  exact ⟨symbol, List.mem_of_find?_eq_some first, named, beq_iff_eq.mp same⟩

private theorem Schema.ReadsType.trim_name {e : Element} {type : DataType} (reads : ReadsType e type) {v : ValidValue}
    (listed : v ∈ type.values) : Text.trim v.name = v.name := by
  have declared : v ∈ declaredValues e := by
    rw [reads.values, sortValues] at listed
    split at listed
    · exact (perm_sortBy _ _).mem_iff.mp listed
    · exact (perm_sortBy _ _).mem_iff.mp listed
  obtain ⟨child, _, rfl⟩ := List.mem_map.mp declared
  exact Text.trim_trim _

private theorem Table.trim_symbol {document : Bytes} {m : Model} {t : Table} (parsed : Model.parse document = .ok m)
    (compiled : Table.compile m = .ok t) {l : Layout} (listed : l ∈ t.layouts) {name type : String} {size : Nat}
    {form : IntForm} (member : Field.primitive name type size (.int form) ∈ l.fields) {symbols : Symbols}
    (enumerated : form.symbols = some symbols) {symbol : Symbol} (inside : symbol ∈ symbols.values) :
    Text.trim symbol.name = symbol.name := by
  obtain ⟨_, _, sound⟩ := Table.isSound_of_compile compiled
  obtain ⟨_, stems⟩ := sound.stems l listed
  obtain ⟨_, _, field⟩ := stems.fields.of_mem member
  cases field with
  | @primitive declared kind known once suits =>
    rcases DataType.mem_symbols (suits.2.symbols symbols enumerated) inside with ⟨v, valid, named, _⟩ | ⟨last, _⟩
    · obtain ⟨root, _, _, reads⟩ := Model.readFrom_of_parse parsed
      obtain ⟨e, _, source⟩ := exists_of_forall₂_right reads.types.each (List.mem_of_find?_eq_some known)
      rw [named]
      exact source.trim_name valid
    · rw [last]
      decide

namespace Record

variable {r : Record}

private theorem name?_of_enum {l : Layout} (reached : Reachable l r) {path : String} {place : Location} {size : Nat}
    {form : IntForm} {slot : Slot} {symbols : Symbols} {s : String}
    (located : r.locateInt path = .ok (place, size, form, slot)) (enumerated : form.symbols = some symbols)
    (shown : r.enum path = .ok (some s)) (own : ¬r.Computes place) : symbols.name? slot.raw = some s := by
  obtain ⟨rfl, shape⟩ := reached.hasShape
  obtain ⟨name, type, found⟩ := locate_of_locateInt located
  obtain ⟨raw, symbol, rfl⟩ := (admits_of_locate shape found).int_inv
  have remembers := reached.remembers (at?_of_locate found) own
  simp only [Record.enum, located, enumerated, Except.ok.injEq] at shown
  rw [← shown, symbolOf_of_remembers enumerated remembers, Slot.raw]

/-- The symbol that an enumeration shows can be set. The field then has the number of the last symbol of this
name, whatever its case, and so the number it had, unless another symbol of the name has another number. In a
number that the record sets itself, the symbol has to be one of the present number. -/
theorem setEnum_enum {document : Bytes} {m : Model} {t : Table} {l : Layout}
    (parsed : Model.parse document = .ok m) (compiled : Table.compile m = .ok t) (listed : l ∈ t.layouts)
    (reached : Reachable l r) {path : String} {place : Location} {size : Nat} {form : IntForm} {slot : Slot}
    {symbols : Symbols} {s : String} (located : r.locateInt path = .ok (place, size, form, slot))
    (enumerated : form.symbols = some symbols) (shown : r.enum path = .ok (some s))
    (present : r.Computes place → symbols.name? slot.raw = some s) :
    r.uint path = .ok slot.raw ∧ (∃ symbol ∈ symbols.values, symbol.name = s ∧ symbol.value = slot.raw) ∧
      ∃ next last, r.setEnum path s = .ok next ∧ symbols.IsLastNamed s last ∧ next.uint path = .ok last.value ∧
        ((∀ other ∈ symbols.values, Text.lower other.name = Text.lower s → other.value = slot.raw) →
          next.uint path = .ok slot.raw) := by
  have accepted := Model.isAccepted_of_parse parsed
  have named : symbols.name? slot.raw = some s := by
    by_cases computed : r.Computes place
    · exact present computed
    · exact name?_of_enum reached located enumerated shown computed
  obtain ⟨symbol, member, rfl, value⟩ := Symbols.name?_eq_some named
  obtain ⟨rfl, shape⟩ := reached.hasShape
  obtain ⟨name, type, found⟩ := locate_of_locateInt located
  obtain ⟨owner, inner, followed, here, _⟩ := at?_eq_some.mp (at?_of_locate found)
  have clean := Table.trim_symbol parsed compiled (owner_listed accepted compiled listed followed)
    (List.mem_of_getElem? here) enumerated member
  obtain ⟨last, final, known⟩ := Symbols.value?_of_mem member clean
  have set : r.setEnum path symbol.name =
      .ok (r.modify place fun _ => .int last.value ((symbols.name? last.value).getD "")) := by
    simp only [setEnum_eq, located, enumerated, known]
  have gives := uint_of_locateInt (locateInt_modify last.value ((symbols.name? last.value).getD "") located)
  refine ⟨uint_of_locateInt located, ⟨symbol, member, rfl, value⟩, _, last, set, final, gives, ?_⟩
  intro alike
  obtain ⟨earlier, later, split, same, _⟩ := final
  have inside : last ∈ symbols.values := by
    rw [split]
    exact List.mem_append_right _ List.mem_cons_self
  rw [← alike last inside same]
  exact gives

end Record

/-- A schema in which two sides are told apart by case alone, and a third one is not. -/
def sidesDocument : Bytes := List.flatMap Text.encodeUtf8
  ["<Model><DataTypes><DataType name='Side' rootType='int' size='1'><ValidValue name='Buy' value='1'/>",
    "<ValidValue name='BUY' value='2'/><ValidValue name='Sell' value='3'/></DataType></DataTypes>",
    "<Structures><Structure name='Leg'><Member name='Side' type='Side' cardinality='1'/></Structure>",
    "</Structures></Model>"]

def sides : Symbols := ⟨"Side", [⟨"Buy", 1⟩, ⟨"BUY", 2⟩, ⟨"Sell", 3⟩]⟩

def Record.HasSide (r : Record) (raw : UInt64) (shown : String) : Prop :=
  ((r.locateInt "Side").toOption.any fun (place, _, form, slot) =>
      form.symbols == some sides && slot.raw == raw && !decide (r.Computes place)) = true ∧
    r.uint "Side" = .ok raw ∧ r.enum "Side" = .ok (some shown)

instance (r : Record) (raw : UInt64) (shown : String) : Decidable (r.HasSide raw shown) :=
  inferInstanceAs (Decidable (_ ∧ _ ∧ _))

private theorem exists_leg : ∃ m t l bought sold next, Model.parse sidesDocument = .ok m ∧ Table.compile m = .ok t ∧
    l ∈ t.layouts ∧ (Record.Reachable l bought ∧ bought.HasSide 1 "Buy" ∧
      bought.setEnum "Side" "Buy" = .ok next ∧ next.uint "Side" = .ok 2) ∧
        Record.Reachable l sold ∧ sold.HasSide 3 "Sell" := by
  have run : ((layoutsOf sidesDocument).any fun l =>
      (((Record.new l).setUint "Side" 1).toOption.any fun bought => decide (bought.HasSide 1 "Buy") &&
        ((bought.setEnum "Side" "Buy").toOption.any fun next => decide (next.uint "Side" = .ok 2))) &&
      ((Record.new l).setUint "Side" 3).toOption.any fun sold => decide (sold.HasSide 3 "Sell")) = true := by
    rw [sidesDocument, Text.encodeUtf8_eq]
    decide +kernel
  obtain ⟨m, t, l, parsed, compiled, listed, checked⟩ := exists_of_any_layoutsOf run
  simp only [Bool.and_eq_true, Option.any_eq_true, toOption_eq_some, decide_eq_true_eq] at checked
  obtain ⟨⟨bought, buys, shows, next, set, other⟩, sold, sells, sale⟩ := checked
  exact ⟨m, t, l, bought, sold, next, parsed, compiled, listed, ⟨.change .new (.setUint buys), shows, set, other⟩,
    .change .new (.setUint sells), sale⟩

theorem Record.leg_setEnum_enum : ∃ m t l r next, Model.parse sidesDocument = .ok m ∧
    Table.compile m = .ok t ∧ l ∈ t.layouts ∧ Reachable l r ∧ r.uint "Side" = .ok 3 ∧
      r.enum "Side" = .ok (some "Sell") ∧ r.setEnum "Side" "Sell" = .ok next ∧ next.uint "Side" = .ok 3 := by
  obtain ⟨m, t, l, _, r, _, parsed, compiled, listed, _, reached, ⟨side, raw, shown⟩⟩ := exists_leg
  obtain ⟨⟨place, size, form, slot⟩, located, checked⟩ := (Option.any_eq_true _ _).mp side
  rw [toOption_eq_some] at located
  simp only [Bool.and_eq_true, beq_iff_eq, Bool.not_eq_true', decide_eq_false_iff_not] at checked
  obtain ⟨⟨enumerated, number⟩, own⟩ := checked
  obtain ⟨_, _, next, last, set, _, _, keeps⟩ :=
    setEnum_enum parsed compiled listed reached located enumerated shown fun computes => absurd computes own
  have alike : ∀ other ∈ sides.values, Text.lower other.name = Text.lower "Sell" → other.value = slot.raw := by
    rw [number]
    decide
  exact ⟨m, t, l, r, next, parsed, compiled, listed, reached, raw, shown, set, number ▸ keeps alike⟩

/-- The symbol of a purchase is set again and means another number, whose name differs in its case. -/
theorem Record.setEnum_enum_ne : ∃ m t l r next, Model.parse sidesDocument = .ok m ∧
    Table.compile m = .ok t ∧ l ∈ t.layouts ∧ Reachable l r ∧ r.uint "Side" = .ok 1 ∧
      r.enum "Side" = .ok (some "Buy") ∧ r.setEnum "Side" "Buy" = .ok next ∧ next.uint "Side" = .ok 2 := by
  obtain ⟨m, t, l, r, _, next, parsed, compiled, listed, ⟨reached, ⟨_, raw, shown⟩, set, other⟩, _⟩ := exists_leg
  exact ⟨m, t, l, r, next, parsed, compiled, listed, reached, raw, shown, set, other⟩

end TradeWire

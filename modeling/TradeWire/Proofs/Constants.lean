import TradeWire.Proofs.Layout.Constants
import TradeWire.Proofs.Record.Symbols
import TradeWire.Proofs.Wire.Setting

/-! A field holds for a constant what the schema writes, as far as it can hold it. -/

set_option autoImplicit false
set_option relaxedAutoImplicit false

namespace TradeWire

open Schema

/-- The constants of a field are those of its data type. -/
structure IntForm.HoldsConstantsOf (type : DataType) (form : IntForm) : Prop where
  initial : form.initial = 0 ∨ form.noValue = some form.initial
  noValue : ∀ raw ∈ form.noValue,
    Word.IsConstant type.size form.isSigned (Literal.value (Text.trim type.noValue)) raw
  symbols : ∀ symbols ∈ form.symbols, ∀ symbol ∈ symbols.values,
    (∃ v ∈ type.values, ∃ n, symbol.name = v.name ∧ type.Denotes v.value n ∧
        Word.IsConstant type.size form.isSigned n symbol.value) ∨
      symbol.name = Symbols.noValueName ∧ form.noValue = some symbol.value

private theorem IntForm.Suits.holdsConstantsOf {type : DataType} {form : IntForm} (suits : form.Suits type)
    (positive : 0 < type.size) (width : type.size ≤ 8) : form.HoldsConstantsOf type := by
  obtain ⟨sign, noValue, symbols, _, _, initial⟩ := suits
  refine ⟨?_, ?_, ?_⟩
  · rw [initial]
    split
    · exact .inl rfl
    · unfold DataType.initialValue
      split
      · exact .inl rfl
      · cases none : form.noValue with
        | none => exact .inl rfl
        | some raw => exact .inr rfl
  · intro raw present
    rw [present] at noValue
    rw [sign]
    exact DataType.isConstant_of_rawNoValue positive width noValue
  · intro table enumerated symbol member
    rcases DataType.mem_symbols (symbols table enumerated) member with ⟨v, declared, named, read⟩ | last
    · obtain ⟨n, denotes, constant⟩ := DataType.isConstant_of_rawValue positive width read
      exact .inl ⟨v, declared, n, named, denotes, sign ▸ constant⟩
    · exact .inr last

theorem Record.fields_ne_nil_of_locate {r : Record} {path : String} {place : Location} {f : Field} {s : Slot}
    (located : r.locate path = .ok (place, f, s)) : r.layout.fields ≠ [] := by
  intro none
  have there := at?_of_locate located
  obtain ⟨hops, i⟩ := place
  cases hops with
  | nil => simp [at?, follow, none] at there
  | cons hop hops => simp [at?, follow, none] at there

private theorem Record.setEnum_eq_ok {r next : Record} {path symbol : String} {place : Location} {name type : String}
    {size : Nat} {form : IntForm} {s : Slot}
    (located : r.locate path = .ok (place, .primitive name type size (.int form), s))
    (set : r.setEnum path symbol = .ok next) :
    ∃ symbols raw shown, form.symbols = some symbols ∧ symbols.value? symbol = some raw ∧
      next = r.modify place fun _ => .int raw shown := by
  have integer : r.locateInt path = .ok (place, size, form, s) := by
    simp only [Record.locateInt, located]
  simp only [Record.setEnum_eq, integer] at set
  split at set
  · cases set
  · rename_i symbols enumerated
    split at set
    · cases set
    · rename_i raw found
      cases set
      exact ⟨symbols, raw, _, enumerated, found, rfl⟩

/-- Constants are what the schema says, as far as fields can hold it. An integer field starts at zero or at its
no-value. Its no-value and its symbols stand for what the literals of its type denote: an unsigned field holds
that number modulo 2^64, a signed one a negative number itself and otherwise the low bytes sign-extended. What
it holds fits exactly when the number is in range. A record that packs goes on packing when a symbol is set,
exactly when the value of the symbol fits, unless the field is a counter. -/
theorem Table.holdsConstants {document : Bytes} {m : Model} {t : Table}
    (parsed : Model.parse document = .ok m) (compiled : Table.compile m = .ok t) {l : Layout}
    (listed : l ∈ t.layouts) {name type : String} {size : Nat} {form : IntForm}
    (member : Field.primitive name type size (.int form) ∈ l.fields) :
    (∃ declared ∈ m.types, declared.name = type ∧ declared.size = size ∧ form.HoldsConstantsOf declared) ∧
      ∀ top ∈ t.layouts, ∀ (r next : Record) (path symbol : String) (place : Record.Location) (s : Slot)
        (b : Bytes), Record.Reachable top r → r.pack = .ok b →
          r.locate path = .ok (place, .primitive name type size (.int form), s) → form.governs = false →
            r.setEnum path symbol = .ok next →
              ((∃ more, next.pack = .ok more) ↔ ∃ symbols raw, form.symbols = some symbols ∧
                symbols.value? symbol = some raw ∧ Word.fits raw size form.isSigned = true) := by
  have accepted := Model.isAccepted_of_parse parsed
  constructor
  · obtain ⟨_, _, sound⟩ := Table.isSound_of_compile compiled
    obtain ⟨_, stems⟩ := sound.stems l listed
    obtain ⟨_, _, field⟩ := stems.fields.of_mem member
    cases field with
    | @primitive declared kind known once suits =>
      have present : declared ∈ m.types := List.mem_of_find?_eq_some known
      have named := List.find?_some known
      rw [beq_iff_eq] at named
      have allowed := accepted.widths declared present suits.1
      simp only [integerWidths, List.mem_cons, List.not_mem_nil, or_false] at allowed
      exact ⟨declared, present, named, rfl, suits.2.holdsConstantsOf (by omega) (by omega)⟩
  · intro top inTable r next path symbol place s b reached packed located free set
    obtain ⟨rfl, shape⟩ := reached.hasShape
    have sound := Table.sound_of_compile accepted compiled r.layout inTable
    have anchored := Table.anchored_of_compile accepted compiled r.layout inTable
      (Record.fields_ne_nil_of_locate located)
    obtain ⟨symbols, raw, shown, enumerated, found, rfl⟩ := Record.setEnum_eq_ok located set
    rw [Record.pack_modify_isOk_iff sound anchored shape packed located free raw shown]
    constructor
    · intro fit
      exact ⟨symbols, raw, enumerated, found, fit⟩
    · rintro ⟨others, other, same, again, fit⟩
      cases enumerated.symm.trans same
      cases found.symm.trans again
      exact fit

/-- A schema with a field whose constants are in range, two fields with symbols that are not, and a counter
with a symbol. -/
def rangesDocument : Bytes := List.flatMap Text.encodeUtf8
  ["<Model><DataTypes><DataType name='S' rootType='int' size='1' noValue='0x80'>",
    "<ValidValue name='Ones' value='0xFF'/><ValidValue name='Least' value='-128'/>",
    "<ValidValue name='Most' value='0177'/></DataType>",
    "<DataType name='U' rootType='int' size='1' minValue='0'><ValidValue name='Big' value='300'/></DataType>",
    "<DataType name='W' rootType='int' size='1'><ValidValue name='Cut' value='300'/></DataType>",
    "<DataType name='K' rootType='int' size='1'><ValidValue name='One' value='1'/></DataType></DataTypes>",
    "<Structures><Structure name='Leg'><Member name='Side' type='K' cardinality='1'/></Structure>",
    "<Structure name='Quote'><Member name='A' type='S' cardinality='1'/>",
    "<Member name='B' type='U' cardinality='1'/><Member name='C' type='W' cardinality='1'/>",
    "<Member name='Count' type='K' cardinality='1'/>",
    "<Member name='Legs' type='Leg' cardinality='3' minCardinality='0' counter='Count'/></Structure>",
    "</Structures></Model>"]

def rangesModel : Model where
  name := ""
  version := ""
  subVersion := ""
  build := ""
  types := [
    ⟨"S", "", .int, 1, "", "", "0x80", 0, false, "", [⟨"Least", "-128"⟩, ⟨"Most", "0177"⟩, ⟨"Ones", "0xFF"⟩]⟩,
    ⟨"U", "", .int, 1, "0", "", "", 0, false, "", [⟨"Big", "300"⟩]⟩,
    ⟨"W", "", .int, 1, "", "", "", 0, false, "", [⟨"Cut", "300"⟩]⟩,
    ⟨"K", "", .int, 1, "", "", "", 0, false, "", [⟨"One", "1"⟩]⟩]
  structures := [⟨"Leg", "", 0, [⟨"Side", "K", 1, none, ""⟩]⟩,
    ⟨"Quote", "", 0, [⟨"A", "S", 1, none, ""⟩, ⟨"B", "U", 1, none, ""⟩, ⟨"C", "W", 1, none, ""⟩,
      ⟨"Count", "K", 1, none, ""⟩, ⟨"Legs", "Leg", 3, some 0, "Count"⟩]⟩]
  templates := []
  usages := []
  flows := []

theorem parse_rangesDocument : Model.parse rangesDocument = .ok rangesModel := by
  refine Model.parse_of_isAlike ?_
  rw [rangesDocument, Text.encodeUtf8_eq]
  decide +kernel

/-- The form of an integer field that is not scaled, no character and no counter. -/
def plainForm (isSigned : Bool) (noValue : Option UInt64) (symbols : Symbols) : IntForm :=
  ⟨isSigned, false, 0, noValue.getD 0, noValue, some symbols, false⟩

def inRangeForm : IntForm := plainForm true (some 0xffffffffffffff80)
  ⟨"S", [⟨"Least", 0xffffffffffffff80⟩, ⟨"Most", 127⟩, ⟨"Ones", 0xffffffffffffffff⟩]⟩

/-- The unsigned field with a symbol that it cannot be packed with. -/
def bigForm : IntForm := plainForm false none ⟨"U", [⟨"Big", 300⟩]⟩

/-- The signed field with a symbol of which only the low byte is left. -/
def cutForm : IntForm := plainForm true none ⟨"W", [⟨"Cut", 44⟩]⟩

/-- The field is an integer of this name, type and form, of one byte. -/
def Field.isByte (name type : String) (form : IntForm) (f : Field) : Bool :=
  f.name == name && f.type == type && f.size == 1 && f.intForm? == some form

private theorem Field.eq_of_isByte {name type : String} {form : IntForm} {f : Field}
    (same : f.isByte name type form = true) : f = .primitive name type 1 (.int form) := by
  simp only [isByte, Bool.and_eq_true, beq_iff_eq] at same
  obtain ⟨⟨⟨named, typed⟩, width⟩, integer⟩ := same
  obtain ⟨_, _, _, rfl⟩ := exists_of_intForm? integer
  cases named
  cases typed
  cases Int.ofNat_inj.mp width
  rfl

/-- A fresh quote packs. It does so when a symbol in range is set, but neither when one is set that is too big
nor when its count is set. -/
theorem exists_ranges : ∃ m t l place s good big counted, Model.parse rangesDocument = .ok m ∧
    Table.compile m = .ok t ∧ l ∈ t.layouts ∧
      (.primitive "A" "S" 1 (.int inRangeForm) ∈ l.fields ∧ .primitive "B" "U" 1 (.int bigForm) ∈ l.fields ∧
        .primitive "C" "W" 1 (.int cutForm) ∈ l.fields) ∧
      (Record.new l).locate "A" = .ok (place, .primitive "A" "S" 1 (.int inRangeForm), s) ∧
        (Record.new l).pack = .ok [128, 0, 0, 0] ∧ (Record.new l).setEnum "A" "Ones" = .ok good ∧
          ((Record.new l).setEnum "B" "Big" = .ok big ∧
              big.pack = .error ⟨"Quote", "B", .doesNotFit 300 1⟩) ∧
            (Record.new l).setEnum "Count" "One" = .ok counted ∧
              counted.pack = .error ⟨"Quote", "Legs", .groupCount 0 1⟩ := by
  have run : ((layoutsOf rangesDocument).any fun l =>
      (l.fields.any (Field.isByte "A" "S" inRangeForm) && l.fields.any (Field.isByte "B" "U" bigForm) &&
        l.fields.any (Field.isByte "C" "W" cutForm)) &&
      ((Record.new l).locate "A").toOption.any (fun found => found.2.1.isByte "A" "S" inRangeForm) &&
      decide ((Record.new l).pack = .ok [128, 0, 0, 0]) &&
      ((Record.new l).setEnum "A" "Ones").toOption.isSome &&
      ((Record.new l).setEnum "B" "Big").toOption.any (fun big =>
        fault? big.pack == some ⟨"Quote", "B", .doesNotFit 300 1⟩) &&
      ((Record.new l).setEnum "Count" "One").toOption.any fun counted =>
        fault? counted.pack == some ⟨"Quote", "Legs", .groupCount 0 1⟩) = true := by
    rw [layoutsOf_eq parse_rangesDocument]
    decide +kernel
  obtain ⟨m, t, l, parsed, compiled, listed, checked⟩ := exists_of_any_layoutsOf run
  simp only [Bool.and_eq_true, List.any_eq_true, Option.any_eq_true, Option.isSome_iff_exists,
    toOption_eq_some, decide_eq_true_eq, beq_iff_eq, fault?_eq_some, Prod.exists] at checked
  obtain ⟨⟨⟨⟨⟨⟨⟨⟨a, hasA, isA⟩, b, hasB, isB⟩, c, hasC, isC⟩, place, f, s, located, isF⟩, packed⟩, good,
    fine⟩, tooBig⟩, counting⟩ := checked
  obtain rfl := Field.eq_of_isByte isA
  obtain rfl := Field.eq_of_isByte isB
  obtain rfl := Field.eq_of_isByte isC
  obtain rfl := Field.eq_of_isByte isF
  obtain ⟨big, setBig, refused⟩ := tooBig
  obtain ⟨counted, setCount, mismatched⟩ := counting
  exact ⟨m, t, l, place, s, good, big, counted, parsed, compiled, listed, ⟨hasA, hasB, hasC⟩, located, packed,
    fine, ⟨setBig, refused⟩, setCount, mismatched⟩

/-- A signed field holds its constants, written in three bases, and packs with a bit pattern as its symbol. -/
theorem Table.ranges_holdsConstants : ∃ m t l declared next, Model.parse rangesDocument = .ok m ∧
    Table.compile m = .ok t ∧ l ∈ t.layouts ∧ .primitive "A" "S" 1 (.int inRangeForm) ∈ l.fields ∧
      declared ∈ m.types ∧ declared.name = "S" ∧ inRangeForm.HoldsConstantsOf declared ∧
        (Record.new l).setEnum "A" "Ones" = .ok next ∧ ∃ more, next.pack = .ok more := by
  obtain ⟨m, t, l, place, s, next, _, _, parsed, compiled, listed, ⟨member, _, _⟩, located, packed, set, _⟩ :=
    exists_ranges
  obtain ⟨⟨declared, present, named, _, constants⟩, sets⟩ :=
    Table.holdsConstants parsed compiled listed member
  have packs := sets l listed _ next "A" "Ones" place s _ .new packed located rfl set
  have fits : ∃ symbols raw, inRangeForm.symbols = some symbols ∧ symbols.value? "Ones" = some raw ∧
      Word.fits raw 1 inRangeForm.isSigned = true :=
    ⟨⟨"S", [⟨"Least", 0xffffffffffffff80⟩, ⟨"Most", 127⟩, ⟨"Ones", 0xffffffffffffffff⟩]⟩,
      0xffffffffffffffff, rfl, by decide, by decide⟩
  exact ⟨m, t, l, declared, next, parsed, compiled, listed, member, present, named, constants, set,
    packs.mpr fits⟩

/-- Literals out of range are accepted: a symbol that is too big for its unsigned field, with which the record
does not pack, and one of which a signed field holds something else. Nor does the record pack with a symbol
for the number of its legs when it has none. -/
theorem Table.constants_not_inRange : ∃ m t l big counted, Model.parse rangesDocument = .ok m ∧
    Table.compile m = .ok t ∧ l ∈ t.layouts ∧ (Record.new l).pack = .ok [128, 0, 0, 0] ∧
      (.primitive "B" "U" 1 (.int bigForm) ∈ l.fields ∧ Word.fits 300 1 bigForm.isSigned = false ∧
        (Record.new l).setEnum "B" "Big" = .ok big ∧
          big.pack = .error ⟨"Quote", "B", .doesNotFit 300 1⟩) ∧
      (.primitive "C" "W" 1 (.int cutForm) ∈ l.fields ∧ (44 : Int) % 2 ^ 64 ≠ 300 % 2 ^ 64 ∧
        ¬(300 : Int) < 2 ^ (8 * 1)) ∧
      (Record.new l).setEnum "Count" "One" = .ok counted ∧
        counted.pack = .error ⟨"Quote", "Legs", .groupCount 0 1⟩ := by
  obtain ⟨m, t, l, _, _, _, big, counted, parsed, compiled, listed, ⟨_, hasBig, hasCut⟩, _, packed, _,
    ⟨setBig, refused⟩, setCount, mismatched⟩ := exists_ranges
  exact ⟨m, t, l, big, counted, parsed, compiled, listed, packed, ⟨hasBig, by decide, setBig, refused⟩,
    ⟨hasCut, by decide, by decide⟩, setCount, mismatched⟩

end TradeWire

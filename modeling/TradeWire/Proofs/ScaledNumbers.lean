import TradeWire.Proofs.Number.DecimalLibraries
import TradeWire.Proofs.Number.Ranges
import TradeWire.Proofs.Record.Resolution
import TradeWire.Proofs.Schema.Accepted

/-! Scaled numbers set and shown in decimals, by a library that is exact on the texts in question. -/

set_option autoImplicit false
set_option relaxedAutoImplicit false

namespace TradeWire

open Schema

/-- The text was refused because it is not read as a whole number of units. -/
def FieldError.IsBadDecimal (path text : String) : FieldError → Prop
  | .badDecimal asked given _ => asked = path ∧ given = text
  | .tooManyPlaces asked given _ => asked = path ∧ given = text
  | _ => False

private theorem Table.scale_le {document : Bytes} {m : Model} {t : Table} (parsed : Model.parse document = .ok m)
    (compiled : Table.compile m = .ok t) {l : Layout} (listed : l ∈ t.layouts) {name type : String} {size : Nat}
    {form : IntForm} (member : Field.primitive name type size (.int form) ∈ l.fields) :
    form.scale ≤ maxPrecision := by
  obtain ⟨_, _, sound⟩ := Table.isSound_of_compile compiled
  obtain ⟨_, stems⟩ := sound.stems l listed
  obtain ⟨_, _, field⟩ := stems.fields.of_mem member
  cases field with
  | @primitive declared kind known once suits =>
    obtain ⟨root, _, _, reads⟩ := Model.readFrom_of_parse parsed
    obtain ⟨_, _, source⟩ := exists_of_forall₂_right reads.types.each (List.mem_of_find?_eq_some known)
    rw [suits.2.scale]
    split
    · exact source.precision
    · exact Nat.zero_le _

namespace Record

/-- How an integer field takes a text: exactly when the text is a literal of a number of units for which the field
has room. It then has that number and shows a literal of the same number. A text that is no literal of a number of
units is a bad decimal, a number without room is out of range, and the record stays as it was. -/
structure TakesDecimal (r : Record) (lib : DecimalLibrary) (path : String) (size : Nat) (form : IntForm)
    (text : String) : Prop where
  takes : (∃ next, r.setDecimal lib path text = .ok next) ↔
    ∃ n, Decimal.Counts text form.scale n ∧ Word.HasRoom size form.isSigned n
  gives : ∀ next, r.setDecimal lib path text = .ok next → ∃ (q : ℚ) (n : Int) (raw : UInt64) (shown : String),
    Decimal.Denotes text q ∧ n = q * 10 ^ form.scale ∧ next.uint path = .ok raw ∧
      numberOf form.isSigned raw = n ∧ next.decimal lib path = .ok shown ∧ Decimal.Denotes shown q
  bad : (∃ fault, r.setDecimal lib path text = .error fault ∧ fault.IsBadDecimal path text) ↔
    ¬∃ n, Decimal.Counts text form.scale n
  outOfRange : r.setDecimal lib path text = .error (.decimalOutOfRange path text) ↔
    ∃ n, Decimal.Counts text form.scale n ∧ ¬Word.HasRoom size form.isSigned n
  refuses : ∀ fault left, Update.decimal lib path text r = .error fault left → left = r

section Located

variable {r : Record} {lib : DecimalLibrary} {path text : String} {place : Location} {size : Nat} {form : IntForm}
  {s : Slot}

/-- A text sets the field when units are counted in it for which the field has room. -/
theorem setDecimal_eq_ok (positive : 0 < size) (width : size ≤ 8)
    (located : r.locateInt path = .ok (place, size, form, s)) {next : Record} :
    r.setDecimal lib path text = .ok next ↔ ∃ n, lib.units text form.scale = .ok n ∧
      Word.HasRoom size form.isSigned n ∧ next = r.modify place fun _ => .int (Word.ofInt n) "" := by
  simp only [setDecimal_eq, located]
  cases units : lib.units text form.scale with
  | error fault => cases fault <;> simp
  | ok n =>
    simp only [Except.ok.injEq, exists_eq_left']
    cases raw : rawOfInt? size form.isSigned n with
    | none =>
      simp only [reduceCtorEq, false_iff, not_and]
      intro room
      rw [(Word.rawOfInt?_eq_some positive width).mpr ⟨room, rfl⟩] at raw
      cases raw
    | some found =>
      obtain ⟨room, rfl⟩ := (Word.rawOfInt?_eq_some positive width).mp raw
      simp only [Except.ok.injEq, room, true_and]
      exact eq_comm

/-- In a text that does not set the field no units are counted, or their number has no room. -/
theorem setDecimal_eq_error (positive : 0 < size) (width : size ≤ 8)
    (located : r.locateInt path = .ok (place, size, form, s)) {fault : FieldError}
    (failed : r.setDecimal lib path text = .error fault) :
    (fault.IsBadDecimal path text ∧ ∀ n, lib.units text form.scale ≠ .ok n) ∨
      fault = .decimalOutOfRange path text ∧
        ∃ n, lib.units text form.scale = .ok n ∧ ¬Word.HasRoom size form.isSigned n := by
  simp only [setDecimal_eq, located] at failed
  split at failed
  · rename_i unread
    cases failed
    exact .inl ⟨⟨rfl, rfl⟩, by simp [unread]⟩
  · rename_i uncounted
    cases failed
    exact .inl ⟨⟨rfl, rfl⟩, by simp [uncounted]⟩
  · rename_i n units
    split at failed
    · rename_i raw
      cases failed
      refine .inr ⟨rfl, n, units, ?_⟩
      intro room
      rw [(Word.rawOfInt?_eq_some positive width).mpr ⟨room, rfl⟩] at raw
      cases raw
    · cases failed

/-- What the field is set to is the number that was counted, and it shows what the library prints of it. -/
theorem shows_of_setDecimal (positive : 0 < size) (width : size ≤ 8)
    (located : r.locateInt path = .ok (place, size, form, s)) {next : Record}
    (set : r.setDecimal lib path text = .ok next) :
    ∃ n raw, lib.units text form.scale = .ok n ∧ next.HasIntAt path size form ∧ next.uint path = .ok raw ∧
      numberOf form.isSigned raw = n ∧ next.decimal lib path = .ok (lib.render n form.scale) := by
  obtain ⟨n, units, room, rfl⟩ := (setDecimal_eq_ok positive width located).mp set
  have number := Word.numberOf_ofInt (room.isNumber positive width)
  have after := locateInt_modify (Word.ofInt n) "" located
  have shown := decimal_of_locateInt lib after
  rw [Slot.raw, decimalText, number] at shown
  exact ⟨n, _, units, ⟨place, _, after⟩, uint_of_locateInt after, number, shown⟩

variable {value : lib.Number → ℚ} {texts : Set String}

theorem takesDecimal (exact : lib.IsExactOn value texts) (positive : 0 < size) (width : size ≤ 8)
    (small : form.scale ≤ maxPrecision) (located : r.locateInt path = .ok (place, size, form, s))
    (member : text ∈ texts) : r.TakesDecimal lib path size form text := by
  have counts : ∀ n, lib.units text form.scale = .ok n ↔ Decimal.Counts text form.scale n :=
    fun n => exact.units_eq_ok member small
  -- a text sets the field, is a bad decimal or has no room, and no two of these at once
  have sets := @setDecimal_eq_ok r lib path text place size form s positive width located
  have fails := @setDecimal_eq_error r lib path text place size form s positive width located
  simp only [counts] at sets
  simp only [ne_eq, counts] at fails
  constructor
  case takes =>
    simp only [sets]
    constructor
    · rintro ⟨_, n, units, room, _⟩
      exact ⟨n, units, room⟩
    · rintro ⟨n, units, room⟩
      exact ⟨_, n, units, room, rfl⟩
  case gives =>
    intro next set
    obtain ⟨n, raw, units, _, held, number, shown⟩ := shows_of_setDecimal positive width located set
    obtain ⟨q, denotes, whole⟩ := (counts n).mp units
    have same : (n / 10 ^ form.scale : ℚ) = q := by
      rw [whole, mul_div_cancel_right₀ _ (pow_ne_zero _ (by norm_num))]
    exact ⟨q, n, raw, _, denotes, whole, held, number, shown, same ▸ (exact.denotes_render small n).2⟩
  case bad =>
    constructor
    · rintro ⟨fault, failed, bad⟩
      rcases fails failed with ⟨_, none⟩ | ⟨rfl, _⟩
      · exact fun ⟨n, found⟩ => none n found
      · exact bad.elim
    · intro none
      cases outcome : r.setDecimal lib path text with
      | ok next =>
        obtain ⟨n, found, _⟩ := sets.mp outcome
        exact absurd ⟨n, found⟩ none
      | error fault =>
        rcases fails outcome with ⟨bad, _⟩ | ⟨_, n, found, _⟩
        · exact ⟨fault, rfl, bad⟩
        · exact absurd ⟨n, found⟩ none
  case outOfRange =>
    constructor
    · intro failed
      rcases fails failed with ⟨bad, _⟩ | ⟨_, full⟩
      · exact bad.elim
      · exact full
    · rintro ⟨n, found, full⟩
      cases outcome : r.setDecimal lib path text with
      | ok next =>
        obtain ⟨k, again, room, _⟩ := sets.mp outcome
        rw [exact.counts_unique member small again found] at room
        exact absurd room full
      | error fault =>
        rcases fails outcome with ⟨_, none⟩ | ⟨rfl, _⟩
        · exact absurd found (none n)
        · rfl
  case refuses => exact Update.keeps_decimal lib path text r

end Located

section Compiled

variable {document : Bytes} {m : Model} {t : Table} {r : Record} {path : String} {size : Nat} {form : IntForm}

/-- An integer field of a compiled record has bytes, eight at most, and no more places than its schema allows. -/
theorem bounds_of_hasIntAt (parsed : Model.parse document = .ok m) (compiled : Table.compile m = .ok t)
    (listed : r.layout ∈ t.layouts) (here : r.HasIntAt path size form) :
    0 < size ∧ size ≤ 8 ∧ form.scale ≤ maxPrecision := by
  obtain ⟨place, s, located⟩ := here
  have accepted := Model.isAccepted_of_parse parsed
  obtain ⟨positive, width⟩ :=
    width_of_locateInt (Table.sound_of_compile accepted compiled r.layout listed) located
  refine ⟨positive, width, ?_⟩
  obtain ⟨name, type, found⟩ := locate_of_locateInt located
  obtain ⟨owner, inner, followed, member, _⟩ := at?_eq_some.mp (at?_of_locate found)
  exact Table.scale_le parsed compiled (owner_listed accepted compiled listed followed)
    (List.mem_of_getElem? member)

/-- Scaled decimals are exact, if the library is: every text is taken or refused by the number it denotes, and what
a field shows of a number that fits it is a text by which it is set to the same number. -/
theorem decimals_exact {lib : DecimalLibrary} {value : lib.Number → ℚ} {texts : Set String}
    (exact : lib.IsExactOn value texts) (parsed : Model.parse document = .ok m)
    (compiled : Table.compile m = .ok t) (listed : r.layout ∈ t.layouts) (here : r.HasIntAt path size form) :
    (∀ text ∈ texts, r.TakesDecimal lib path size form text) ∧
      ∀ raw, r.uint path = .ok raw → Word.IsInRange raw size form.isSigned →
        ∃ shown next, r.decimal lib path = .ok shown ∧ r.setDecimal lib path shown = .ok next ∧
          next.uint path = .ok raw := by
  obtain ⟨positive, width, small⟩ := bounds_of_hasIntAt parsed compiled listed here
  obtain ⟨place, s, located⟩ := here
  refine ⟨fun text member => takesDecimal exact positive width small located member, ?_⟩
  intro raw held range
  rw [uint_of_locateInt located] at held
  cases held
  have units := exact.units_render small (numberOf form.isSigned s.raw)
  have room := Word.isInRange_iff_hasRoom.mp range
  have set := (setDecimal_eq_ok positive width located).mpr ⟨_, units, room, rfl⟩
  rw [Word.ofInt_numberOf] at set
  have still := uint_of_locateInt (locateInt_modify s.raw "" located)
  exact ⟨_, _, decimal_of_locateInt lib located, set, still⟩

end Compiled

end Record

/-- A schema with a price of one signed byte that counts hundredths. -/
def hundredthsDocument : Bytes := List.flatMap Text.encodeUtf8
  ["<Model><DataTypes><DataType name='Price' rootType='floatDecimal' size='1' precision='2'/></DataTypes>",
    "<Structures><Structure name='Quote'><Member name='Price' type='Price' cardinality='1'/></Structure>",
    "</Structures></Model>"]

/-- By the standard library a price is set to the greatest number of its byte, and what a fresh price shows sets
it. -/
theorem Record.quote_decimals_exact : ∃ m t l form next raw shown again, Model.parse hundredthsDocument = .ok m ∧
    Table.compile m = .ok t ∧ l ∈ t.layouts ∧ (new l).HasIntAt "Price" 1 form ∧
      DecimalLibrary.standard.IsExactOn Decimal.value {text | Decimal.IsRegular text} ∧
      ((new l).setDecimal .standard "Price" "1.27" = .ok next ∧ next.uint "Price" = .ok raw ∧
        numberOf form.isSigned raw = 127) ∧
      (new l).decimal .standard "Price" = .ok shown ∧ (new l).setDecimal .standard "Price" shown = .ok again ∧
        again.uint "Price" = .ok 0 := by
  have run : ((layoutsOf hundredthsDocument).any fun l =>
      (((new l).locateInt "Price").toOption.any fun found =>
        found.2.1 == 1 && (found.2.2.1.isSigned && found.2.2.1.scale == 2)) &&
      decide ((new l).uint "Price" = .ok 0)) = true := by
    rw [hundredthsDocument, Text.encodeUtf8_eq]
    decide +kernel
  obtain ⟨m, t, l, parsed, compiled, listed, checked⟩ := exists_of_any_layoutsOf run
  simp only [Bool.and_eq_true, Option.any_eq_true, toOption_eq_some, decide_eq_true_eq, beq_iff_eq,
    Prod.exists] at checked
  obtain ⟨⟨place, _, form, s, located, rfl, signed, scale⟩, zero⟩ := checked
  have here : (new l).HasIntAt "Price" 1 form := ⟨place, s, located⟩
  obtain ⟨texts, shows⟩ := decimals_exact DecimalLibrary.standard_isExactOn (r := new l) parsed compiled listed here
  have writes : Decimal.WritesMantissa false (['1'] ++ '.' :: ['2', '7']) 127 2 :=
    .point (.plain (by decide) (by simp)) (.inr (by simp))
  have regular : Decimal.IsRegular "1.27" := Decimal.isRegular_of_writesMantissa writes (by decide)
  have counts : Decimal.Counts "1.27" form.scale 127 := by
    refine ⟨127 * 10 ^ (0 - (2 : Int)), ⟨127, 2, 0, ?_, by norm_num⟩, by norm_num [scale]⟩
    rw [← List.append_nil "1.27".toList]
    exact .intro writes .none
  have room : Word.HasRoom 1 form.isSigned 127 := by
    rw [signed]
    decide
  have range : Word.IsInRange 0 1 form.isSigned := by
    rw [Word.isInRange_iff_hasRoom, signed]
    decide
  obtain ⟨next, set⟩ := (texts "1.27" regular).takes.mpr ⟨127, counts, room⟩
  obtain ⟨q, n, raw, _, denotes, whole, held, number, _⟩ := (texts "1.27" regular).gives next set
  obtain ⟨shown, again, shows, setAgain, still⟩ := shows 0 zero range
  have small : form.scale ≤ maxPrecision := by
    rw [scale]
    decide
  rw [DecimalLibrary.standard_isExactOn.counts_unique regular small ⟨q, denotes, whole⟩ counts] at number
  exact ⟨m, t, l, form, next, raw, shown, again, parsed, compiled, listed, here, DecimalLibrary.standard_isExactOn,
    ⟨set, held, number⟩, shows, setAgain, still⟩

end TradeWire

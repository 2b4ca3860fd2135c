import TradeWire.Flow.Pick
import TradeWire.Proofs.Flow.Tokens
import TradeWire.Proofs.Number.Ranges
import TradeWire.Proofs.SymbolNames
import TradeWire.Proofs.Text.ByteOrder

/-! A value of a condition hits a field when it means what the field holds and is not misread. -/

set_option autoImplicit false
set_option relaxedAutoImplicit false

namespace TradeWire

private theorem Text.encodeUtf8_eq_singleton {s : String} {b : UInt8} :
    encodeUtf8 s = [b] ↔ ∃ c : Char, s.toList = [c] ∧ c.toNat < 128 ∧ c.toNat = b.toNat := by
  have ascii : ∀ c : Char, c.utf8Size = 1 ↔ c.toNat < 128 := by
    intro c
    rw [Char.utf8Size_eq_one_iff, UInt32.le_iff_toNat_le]
    exact Nat.lt_succ_iff.symm
  have code : ∀ c : Char, c.utf8Size = 1 → (String.utf8EncodeChar c = [b] ↔ c.toNat = b.toNat) := by
    intro c one
    have small := (ascii c).mp one
    rw [String.utf8EncodeChar_eq_singleton one, List.singleton_inj, ← UInt8.toNat_inj, UInt32.toNat_toUInt8]
    show c.toNat % 2 ^ 8 = b.toNat ↔ _
    rw [Nat.mod_eq_of_lt (by omega)]
  rw [encodeUtf8_eq_flatMap]
  constructor
  · intro bytes
    cases chars : s.toList with
    | nil => simp [chars] at bytes
    | cons c rest =>
      rw [chars, List.flatMap_cons] at bytes
      have some_byte := c.utf8Size_pos
      have total := congrArg List.length bytes
      rw [List.length_append, String.length_utf8EncodeChar, List.length_singleton] at total
      have none : rest.flatMap String.utf8EncodeChar = [] := List.eq_nil_of_length_eq_zero (by omega)
      have last : rest = [] := by
        cases rest with
        | nil => rfl
        | cons d more => simp at none
      have one : c.utf8Size = 1 := by omega
      rw [none, List.append_nil] at bytes
      exact ⟨c, by rw [last], (ascii c).mp one, (code c one).mp bytes⟩
  · rintro ⟨c, chars, small, same⟩
    rw [chars, List.flatMap_singleton]
    exact (code c ((ascii c).mpr small)).mpr same

namespace Condition

/-- Digits that have a zero in front. -/
def IsPadded (cs : List Char) : Prop :=
  ∃ d rest, isDigit d = true ∧ (cs = '0' :: d :: rest ∨ cs = '-' :: '0' :: d :: rest)

private theorem areDigits_ten {ds : List Char} (digits : ∀ c ∈ ds, isDigit c = true) : Literal.AreDigits 10 ds := by
  intro c member
  obtain ⟨known, below⟩ := Literal.digitValue?_eq_some.mpr ⟨Literal.isDigit_iff.mpr (digits c member), rfl⟩
  exact ⟨_, below, known⟩

private theorem digitValue?_of_hexDigit? {c : Char} {d : Nat} (hex : Text.hexDigit? c = some d) :
    d < 16 ∧ Literal.digitValue? c = some d := by
  unfold Text.hexDigit? at hex
  unfold Literal.digitValue?
  simp only [Char.le_def, UInt32.le_iff_toNat_le, Bool.and_eq_true, decide_eq_true_eq] at hex ⊢
  simp only [Char.reduceVal, UInt32.reduceToNat] at hex ⊢
  have code : c.toNat = c.val.toNat := rfl
  split_ifs at hex ⊢ <;> simp only [Option.some.injEq] at hex ⊢ <;> omega

private theorem areDigits_sixteen {ds : List Char} (digits : ∀ c ∈ ds, Text.isHexDigit c = true) :
    Literal.AreDigits 16 ds := by
  intro c member
  obtain ⟨d, hex⟩ := Option.isSome_iff_exists.mp (digits c member)
  obtain ⟨below, known⟩ := digitValue?_of_hexDigit? hex
  exact ⟨d, below, known⟩

private theorem splitBase_of_digits {ds : List Char} (some_digit : ds ≠ []) (digits : ∀ c ∈ ds, isDigit c = true)
    (unpadded : ¬IsPadded ds) :
    Literal.AreDigits (Literal.splitBase ds).1 (Literal.splitBase ds).2 ∧
      Literal.numberOf (Literal.splitBase ds).1 (Literal.splitBase ds).2 = Literal.numberOf 10 ds := by
  unfold Literal.splitBase
  split
  · rename_i mark d rest
    exact absurd ⟨mark, d :: rest, digits mark (by simp), .inl rfl⟩ unpadded
  · rename_i rest _
    cases rest with
    | nil => exact ⟨nofun, rfl⟩
    | cons d more => exact absurd ⟨d, more, digits d (by simp), .inl rfl⟩ unpadded
  · exact ⟨areDigits_ten digits, rfl⟩

private theorem splitSign_of_isDigit {ds : List Char} (digits : ∀ c ∈ ds, isDigit c = true) :
    Literal.splitSign ds = (false, ds) :=
  Literal.splitSign_of_digits fun c member => Literal.isDigit_iff.mpr (digits c member)

private theorem WritesInteger.integer_eq_ok {v : String} {n k : Int} (writes : WritesInteger v.toList n)
    (unpadded : ¬IsPadded v.toList) :
    Literal.integer v = .ok k ↔ k = n ∧ Word.minSigned ≤ k ∧ k ≤ Word.maxSigned := by
  suffices parts : (Literal.splitSign v.toList).2 ≠ [] ∧ '_' ∉ (Literal.splitSign v.toList).2 ∧
      Literal.AreDigits (Literal.splitBase (Literal.splitSign v.toList).2).1
        (Literal.splitBase (Literal.splitSign v.toList).2).2 ∧ Literal.value v = n by
    obtain ⟨some_char, clean, proper, value⟩ := parts
    rw [Literal.integer_iff some_char clean proper, value]
  unfold Literal.value
  generalize v.toList = cs at writes unpadded ⊢
  cases writes with
  | decimal some_digit digits =>
    obtain ⟨proper, number⟩ := splitBase_of_digits some_digit digits unpadded
    rw [splitSign_of_isDigit digits]
    exact ⟨some_digit, (areDigits_ten digits).no_underscore, proper, by simp [number]⟩
  | negative some_digit digits =>
    rename_i ds
    have inside : ¬IsPadded ds := by
      rintro ⟨d, rest, digit, rfl | rfl⟩
      · exact unpadded ⟨d, rest, digit, .inr rfl⟩
      · exact absurd (digits '-' List.mem_cons_self) (by decide)
    obtain ⟨proper, number⟩ := splitBase_of_digits some_digit digits inside
    exact ⟨some_digit, (areDigits_ten digits).no_underscore, proper, by simp [Literal.splitSign, number]⟩
  | hexadecimal mark some_digit digits =>
    rename_i x ds
    obtain ⟨d, rest, rfl⟩ := List.exists_cons_of_ne_nil some_digit
    have proper := areDigits_sixteen digits
    have solid : x ≠ '_' := by
      rcases mark with rfl | rfl <;> decide
    have base : Literal.splitBase ('0' :: x :: d :: rest) = (16, d :: rest) := by
      rcases mark with rfl | rfl <;> rfl
    have sign : Literal.splitSign ('0' :: x :: d :: rest) = (false, '0' :: x :: d :: rest) := rfl
    have clean : '_' ∉ '0' :: x :: d :: rest := by
      intro member
      rcases List.mem_cons.mp member with same | later
      · exact absurd same (by decide)
      · rcases List.mem_cons.mp later with same | digit
        · exact solid same.symm
        · exact proper.no_underscore digit
    simp only [sign, base]
    exact ⟨List.cons_ne_nil _ _, clean, proper, rfl⟩

private theorem WritesInteger.eq_of_digits {ds : List Char} {n : Int} (writes : WritesInteger ds n)
    (digits : ∀ c ∈ ds, isDigit c = true) : n = Literal.numberOf 10 ds := by
  cases writes with
  | decimal => rfl
  | negative => exact absurd (digits '-' List.mem_cons_self) (by decide)
  | hexadecimal mark =>
    rcases mark with rfl | rfl
    · exact absurd (digits 'x' (by simp)) (by decide)
    · exact absurd (digits 'X' (by simp)) (by decide)

private theorem WritesInteger.nonpos_of_minus {cs : List Char} {n : Int} (writes : WritesInteger cs n)
    (ds : List Char)
    (minus : cs = '-' :: ds) : n ≤ 0 := by
  cases writes with
  | decimal _ digits =>
    subst minus
    exact absurd (digits '-' List.mem_cons_self) (by decide)
  | negative => omega
  | hexadecimal => cases minus

/-- A value that stands for one number in every notation, if for any: an integer without zeros in front, which
on an unsigned field is not negative and below 2^63, or has more than 64 bits; or no literal of any kind. -/
structure IsClear (isSigned : Bool) (v : String) : Prop where
  unpadded : ∀ n, WritesInteger v.toList n → ¬IsPadded v.toList
  nonnegative : isSigned = false → ∀ n, WritesInteger v.toList n → n < 0 → n < Word.minSigned
  small : isSigned = false → ∀ n, WritesInteger v.toList n → Word.maxSigned < n → 2 ^ 64 ≤ n
  proper : ∀ n, Literal.integer v = .ok n → ∃ k, WritesInteger v.toList k

/-- What a value of a condition stands for in a field: a symbol of the field's number, the number itself, or the
character that the number is the code of. -/
def Means (form : IntForm) (raw : UInt64) (v : String) : Prop :=
  (∃ symbols symbol, form.symbols = some symbols ∧ symbols.IsLastNamed (Text.trim v) symbol ∧
    symbol.value = raw) ∨
  WritesInteger v.toList (Record.numberOf form.isSigned raw) ∨
  (form.isChar = true ∧ ∃ c : Char, v.toList = [c] ∧ c.toNat < 128 ∧ c.toNat = raw.toNat)

private theorem hits_eq (form : IntForm) (raw : UInt64) (v : String) :
    hits form raw v = true ↔ form.symbols.bind (·.value? v) = some raw ∨
      (∃ n, Literal.integer v = .ok n ∧ Word.ofInt n = raw) ∨
        form.isChar = true ∧ ∃ b, Text.encodeUtf8 v = [b] ∧ UInt64.ofNat b.toNat = raw := by
  unfold hits
  rw [Bool.or_eq_true, Bool.or_eq_true, Bool.and_eq_true, beq_iff_eq, or_assoc]
  refine or_congr Iff.rfl (or_congr ?_ (and_congr Iff.rfl ?_))
  · cases Literal.integer v with
    | ok n => simp
    | error fault => simp
  · split
    · rename_i b bytes
      simp [bytes]
    · rename_i other
      simp only [Bool.false_eq_true, false_iff]
      rintro ⟨b, bytes, _⟩
      exact other b bytes

private theorem IsClear.number_iff {isSigned : Bool} {v : String} (clear : IsClear isSigned v) (raw : UInt64) :
    (∃ n, Literal.integer v = .ok n ∧ Word.ofInt n = raw) ↔
      WritesInteger v.toList (Record.numberOf isSigned raw) := by
  have number := Word.isNumber_numberOf isSigned raw
  constructor
  · rintro ⟨n, read, rfl⟩
    obtain ⟨k, writes⟩ := clear.proper n read
    obtain ⟨rfl, least, most⟩ := (writes.integer_eq_ok (clear.unpadded k writes)).mp read
    have within : Word.IsNumber isSigned n := by
      cases isSigned with
      | true => exact ⟨least, most⟩
      | false =>
        have nonnegative := clear.nonnegative rfl n writes
        unfold Word.maxSigned at most
        exact ⟨by omega, by omega⟩
    rwa [Word.numberOf_ofInt within]
  · intro writes
    refine ⟨_, (writes.integer_eq_ok (clear.unpadded _ writes)).mpr ⟨rfl, ?_⟩, Word.ofInt_numberOf isSigned raw⟩
    cases isSigned with
    | true => exact number
    | false =>
      have small := clear.small rfl _ writes
      obtain ⟨least, most⟩ := number
      unfold Word.minSigned
      exact ⟨by omega, by omega⟩

/-- A clear value hits a field exactly when it means what the field holds. -/
theorem IsClear.hits_iff {form : IntForm} {v : String} (clear : IsClear form.isSigned v) (raw : UInt64) :
    hits form raw v = true ↔ Means form raw v := by
  have symbol : form.symbols.bind (·.value? v) = some raw ↔ ∃ symbols symbol, form.symbols = some symbols ∧
      symbols.IsLastNamed (Text.trim v) symbol ∧ symbol.value = raw := by
    simp only [Option.bind_eq_some_iff, Symbols.value?_eq_some, exists_and_left]
  have char : (∃ b, Text.encodeUtf8 v = [b] ∧ UInt64.ofNat b.toNat = raw) ↔
      ∃ c : Char, v.toList = [c] ∧ c.toNat < 128 ∧ c.toNat = raw.toNat := by
    simp only [Text.encodeUtf8_eq_singleton]
    constructor
    · rintro ⟨b, ⟨c, chars, ascii, code⟩, rfl⟩
      exact ⟨c, chars, ascii, by simp [code]⟩
    · rintro ⟨c, chars, ascii, code⟩
      have byte : (UInt8.ofNat c.toNat).toNat = c.toNat := Nat.mod_eq_of_lt (by omega)
      refine ⟨UInt8.ofNat c.toNat, ⟨c, chars, ascii, byte.symm⟩, ?_⟩
      rw [byte, code, UInt64.ofNat_toNat]
  rw [hits_eq, Means, symbol, clear.number_iff, char]

private theorem digitValue?_of_startsName {c : Char} (letter : startsName c = true) (solid : c ≠ '_') :
    ∃ d, Literal.digitValue? c = some d ∧ 10 ≤ d := by
  unfold startsName at letter
  unfold Literal.digitValue?
  simp only [Char.le_def, UInt32.le_iff_toNat_le, Bool.and_eq_true, Bool.or_eq_true, beq_iff_eq, solid, or_false,
    decide_eq_true_eq] at letter ⊢
  simp only [Char.reduceVal, UInt32.reduceToNat] at letter ⊢
  have code : c.toNat = c.val.toNat := rfl
  split_ifs <;> simp only [Option.some.injEq, exists_eq_left', false_and, exists_false] <;> omega

private theorem magnitude_of_startsName {c : Char} (letter : startsName c = true) (rest : List Char) (n : Nat) :
    Literal.magnitude (c :: rest) ≠ .ok n := by
  intro read
  have nonzero : c ≠ '0' := by
    rintro rfl
    exact absurd letter (by decide)
  have base : Literal.splitBase (c :: rest) = (10, c :: rest) := by
    unfold Literal.splitBase
    split
    · rename_i front
      exact absurd (List.cons.inj front).1 nonzero
    · rename_i front
      exact absurd (List.cons.inj front).1 nonzero
    · rfl
  have whole := Literal.magnitude_eq_ok read
  rw [base] at whole
  by_cases score : c = '_'
  · subst score
    have placed : Literal.underscoresWellPlaced ('_' :: rest) = false := rfl
    simp [Literal.magnitude, base, whole, placed] at read
  · obtain ⟨d, known, large⟩ := digitValue?_of_startsName letter score
    simp [Literal.digits, score, known, large] at whole

private theorem isClear_of_isName {v : String} (name : IsName v.toList) (isSigned : Bool) : IsClear isSigned v := by
  obtain ⟨c, rest, chars, letter, _⟩ := name
  have unwritten : ∀ n, ¬WritesInteger v.toList n := by
    intro n writes
    have undigit : isDigit c = false := by
      by_contra digit
      rw [startsName_of_isDigit (Bool.not_eq_false _ ▸ digit)] at letter
      cases letter
    rw [chars] at writes
    cases writes with
    | decimal _ digits =>
      rw [digits c List.mem_cons_self] at undigit
      cases undigit
    | negative => exact absurd letter (by decide)
    | hexadecimal => exact absurd letter (by decide)
  have unread : ∀ n, Literal.integer v ≠ .ok n := by
    intro n read
    have unsigned : Literal.splitSign (c :: rest) = (false, c :: rest) := by
      unfold Literal.splitSign
      split
      · rename_i front
        obtain ⟨rfl, -⟩ := List.cons.inj front
        exact absurd letter (by decide)
      · rename_i front
        obtain ⟨rfl, -⟩ := List.cons.inj front
        exact absurd letter (by decide)
      · rfl
    simp only [Literal.integer, chars, unsigned] at read
    obtain ⟨k, known, _⟩ := Literal.signed_eq_ok.mp read
    exact magnitude_of_startsName letter rest k known
  exact ⟨fun n writes => absurd writes (unwritten n), fun _ n writes => absurd writes (unwritten n),
    fun _ n writes => absurd writes (unwritten n), fun n read => absurd read (unread n)⟩

variable {c : Condition} {t : Test} {r : Record} {place : Record.Location} {size : Nat} {form : IntForm} {slot : Slot}

/-- A condition holds when one of its values hits the field, or none if it is negated. A clear value hits
exactly what it means. -/
theorem holds_iff_hits (tested : c.test = some t) (located : r.locateInt t.field = .ok (place, size, form, slot)) :
    ∃ answer, c.holds r = .ok answer ∧
      (answer = true ↔ Xor (∃ v ∈ t.values, hits form slot.raw v = true) (t.negated = true)) ∧
      ∀ v, IsClear form.isSigned v → (hits form slot.raw v = true ↔ Means form slot.raw v) := by
  refine ⟨t.values.any (hits form slot.raw) != t.negated, ?_, ?_, fun v clear => clear.hits_iff slot.raw⟩
  · simp only [holds, tested, Test.holds, located, Except.map]
  · rw [← List.any_eq_true, bne_iff_ne]
    cases t.values.any (hits form slot.raw) <;> cases t.negated <;> simp [Xor]

end Condition

/-- A schema with a quantity of 64 bits, whose greatest value stands for none, and a side that is a character. -/
def orderDocument : Bytes := List.flatMap Text.encodeUtf8
  ["<Model><DataTypes><DataType name='Qty' rootType='int' size='8' minValue='0' noValue='0xFFFFFFFFFFFFFFFF'/>",
    "<DataType name='Side' rootType='String' size='1' noValue='0x32'><ValidValue name='Buy' value='1'/>",
    "<ValidValue name='Sell' value='2'/></DataType></DataTypes><Structures><Structure name='Order'>",
    "<Member name='Qty' type='Qty' cardinality='1'/><Member name='Side' type='Side' cardinality='1'/>",
    "</Structure></Structures></Model>"]

def qtyForm : IntForm := ⟨false, false, 0, 0xffffffffffffffff, some 0xffffffffffffffff, none, false⟩

def sideForm : IntForm :=
  ⟨false, true, 0, 0x32, some 0x32, some ⟨"Side", [⟨"Buy", 0x31⟩, ⟨"Sell", 0x32⟩]⟩, false⟩

private theorem exists_order : ∃ m t l qty side s u, Model.parse orderDocument = .ok m ∧ Table.compile m = .ok t ∧
    l ∈ t.layouts ∧ ((Record.new l).locateInt "Qty" = .ok (qty, 8, qtyForm, s) ∧ s.raw = 0xffffffffffffffff) ∧
      ((Record.new l).locateInt "Side" = .ok (side, 1, sideForm, u) ∧ u.raw = 0x32) ∧
        (Condition.parse "Qty is 18446744073709551615").holds (Record.new l) = .ok false ∧
        (Condition.parse "Qty is -1").holds (Record.new l) = .ok true ∧
        (Condition.parse "Side is 062").holds (Record.new l) = .ok true := by
  have run : ((layoutsOf orderDocument).any fun l =>
      ((Record.new l).locateInt "Qty").toOption.any (fun found =>
        found.2.1 == 8 && found.2.2.1 == qtyForm && found.2.2.2.raw == 0xffffffffffffffff) &&
      ((Record.new l).locateInt "Side").toOption.any (fun found =>
        found.2.1 == 1 && found.2.2.1 == sideForm && found.2.2.2.raw == 0x32) &&
      decide ((Condition.parse "Qty is 18446744073709551615").holds (Record.new l) = .ok false) &&
      decide ((Condition.parse "Qty is -1").holds (Record.new l) = .ok true) &&
      decide ((Condition.parse "Side is 062").holds (Record.new l) = .ok true)) = true := by
    rw [orderDocument, Text.encodeUtf8_eq]
    decide +kernel
  obtain ⟨m, t, l, parsed, compiled, listed, checked⟩ := exists_of_any_layoutsOf run
  simp only [Bool.and_eq_true, Option.any_eq_true, toOption_eq_some, decide_eq_true_eq, beq_iff_eq, Prod.exists]
    at checked
  obtain ⟨⟨⟨⟨⟨qty, _, _, s, located, ⟨rfl, rfl⟩, none⟩, ⟨side, _, _, u, also, ⟨rfl, rfl⟩, sells⟩⟩, large⟩,
    negative⟩, padded⟩ := checked
  exact ⟨m, t, l, qty, side, s, u, parsed, compiled, listed, ⟨located, none⟩, ⟨also, sells⟩, large, negative,
    padded⟩

namespace Condition

theorem order_holds_iff_hits : ∃ m t l, Model.parse orderDocument = .ok m ∧ Table.compile m = .ok t ∧
    l ∈ t.layouts ∧ (parse "Side is not Buy, sell").test = some ⟨"Side", true, ["Buy", "sell"]⟩ ∧
      (∃ side s, (Record.new l).locateInt "Side" = .ok (side, 1, sideForm, s)) ∧
        (parse "Side is not Buy, sell").holds (Record.new l) = .ok false ∧
          IsClear sideForm.isSigned "sell" ∧ Means sideForm 0x32 "sell" := by
  obtain ⟨m, t, l, _, side, _, s, parsed, compiled, listed, _, ⟨located, sells⟩, _⟩ := exists_order
  have read : (parse "Side is not Buy, sell").test = some ⟨"Side", true, ["Buy", "sell"]⟩ := by decide +kernel
  obtain ⟨answer, holds, iff, each⟩ := holds_iff_hits read located
  have clear : IsClear sideForm.isSigned "sell" :=
    isClear_of_isName ⟨'s', ['e', 'l', 'l'], rfl, by decide, List.all_eq_true.mp (by decide)⟩ _
  rw [sells] at iff each
  have hit : hits sideForm 0x32 "sell" = true := by decide +kernel
  have none : answer = false := by
    rw [← Bool.not_eq_true, iff]
    simp [Xor, hit]
  exact ⟨m, t, l, parsed, compiled, listed, read, ⟨side, s, located⟩, none ▸ holds, clear, (each _ clear).mp hit⟩

/-- Conditions misread integers: one of 64 bits is not known, minus one is taken for the greatest number of an
unsigned field, and digits behind a zero are taken for octal ones. -/
theorem conditions_misread_integers : ∃ m t l qty side s u, Model.parse orderDocument = .ok m ∧
    Table.compile m = .ok t ∧ l ∈ t.layouts ∧
      ((Record.new l).locateInt "Qty" = .ok (qty, 8, qtyForm, s) ∧
        (Means qtyForm s.raw "18446744073709551615" ∧
          (parse "Qty is 18446744073709551615").holds (Record.new l) = .ok false) ∧
        (¬Means qtyForm s.raw "-1" ∧ (parse "Qty is -1").holds (Record.new l) = .ok true)) ∧
      ((Record.new l).locateInt "Side" = .ok (side, 1, sideForm, u) ∧
        ¬Means sideForm u.raw "062" ∧ (parse "Side is 062").holds (Record.new l) = .ok true) := by
  obtain ⟨m, t, l, qty, side, s, u, parsed, compiled, listed, ⟨located, none⟩, ⟨also, sells⟩, large, negative,
    padded⟩ := exists_order
  refine ⟨m, t, l, qty, side, s, u, parsed, compiled, listed, ⟨located, ⟨?_, large⟩, ?_, negative⟩, also, ?_, padded⟩
  · have number : (Literal.numberOf 10 "18446744073709551615".toList : Int) =
        Record.numberOf qtyForm.isSigned 0xffffffffffffffff := by decide +kernel
    rw [none]
    exact .inr (.inl (number ▸ .decimal (by decide) (List.all_eq_true.mp (by decide))))
  · rintro (⟨symbols, _, enumerated, _⟩ | writes | ⟨char, _⟩)
    · cases enumerated
    · rw [none] at writes
      have sign := writes.nonpos_of_minus ['1'] rfl
      exact absurd sign (by decide +kernel)
    · cases char
  · rw [sells]
    rintro (⟨symbols, symbol, enumerated, named⟩ | writes | ⟨_, c, chars, _⟩)
    · cases enumerated
      have found := Symbols.value?_eq_some.mpr ⟨symbol, named⟩
      exact absurd found (by decide +kernel)
    · have number := writes.eq_of_digits (List.all_eq_true.mp (by decide))
      exact absurd number (by decide +kernel)
    · exact absurd chars (by simp)

end Condition

end TradeWire

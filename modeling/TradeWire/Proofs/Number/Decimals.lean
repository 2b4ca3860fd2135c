import Mathlib.Algebra.Field.Rat
import Mathlib.Data.List.TakeWhile
import Mathlib.Tactic.FieldSimp
import Mathlib.Tactic.NormNum
import TradeWire.Number.Decimal
import TradeWire.Proofs.Data.Related
import TradeWire.Proofs.Number.Integers

/-! Decimal literals, the numbers they denote, and the decimals that are read of them and written as them. -/

set_option autoImplicit false
set_option relaxedAutoImplicit false

namespace TradeWire

namespace Decimal

open Literal (Writes)

/-- The mark of an exponent with the integer behind it; or nothing, which is exponent zero. -/
inductive WritesExponent : List Char → Int → Prop
  | none : WritesExponent [] 0
  | marked {mark : Char} {cs : List Char} {e : Int} (either : mark = 'e' ∨ mark = 'E') (writes : Writes cs e) :
      WritesExponent (mark :: cs) e

/-- Digits with a sign in front or without one, maybe with a point among them: the integer they write without
the point, and the number of places behind it. If the point `leads`, it may stand before the sign. -/
inductive WritesMantissa (leads : Bool) : List Char → Int → Nat → Prop
  | whole {cs : List Char} {c : Int} (writes : Writes cs c) : WritesMantissa leads cs c 0
  | point {before behind : List Char} {c : Int} (writes : Writes (before ++ behind) c)
      (order : leads = true ∨ ∀ d ∈ behind, d.isDigit = true) :
      WritesMantissa leads (before ++ '.' :: behind) c behind.length

/-- A mantissa with an exponent: the integer it writes, the places behind its point and the exponent. -/
inductive WritesDecimal (leads : Bool) : List Char → Int → Nat → Int → Prop
  | intro {front back : List Char} {c e : Int} {places : Nat} (mantissa : WritesMantissa leads front c places)
      (exponent : WritesExponent back e) : WritesDecimal leads (front ++ back) c places e

/-- The text is a decimal literal of a number. -/
def Denotes (text : String) (q : ℚ) : Prop :=
  ∃ c places e, WritesDecimal false text.toList c places e ∧ q = c * 10 ^ (e - places)

/-- The number that a decimal is. -/
def value (d : Decimal) : ℚ := d.coefficient * 10 ^ d.exponent

private theorem digitsValue_eq_some {ds : List Char} {acc n : Nat} :
    digitsValue acc ds = some n ↔ (∀ c ∈ ds, c.isDigit = true) ∧ n = Nat.ofDigitChars 10 ds acc := by
  induction ds generalizing acc with
  | nil =>
    simp only [digitsValue, Option.some.injEq, List.not_mem_nil, false_imp_iff, implies_true, true_and,
      Nat.ofDigitChars_nil]
    exact eq_comm
  | cons c rest ih =>
    have zero : '0'.toNat = 48 := rfl
    rw [Nat.ofDigitChars_cons, zero, List.forall_mem_cons]
    unfold digitsValue
    by_cases digit : c.isDigit = true
    · rw [if_pos (Literal.isDigit_iff.mp digit), ih]
      simp only [digit, true_and]
    · rw [if_neg fun inside => digit (Literal.isDigit_iff.mpr inside)]
      simp [digit]

private theorem coefficient?_eq_some {cs : List Char} {c : Int} : coefficient? cs = some c ↔ Writes cs c := by
  unfold coefficient?
  rw [Literal.writes_iff]
  obtain ⟨negative, ds⟩ := Literal.splitSign cs
  simp only [List.isEmpty_iff]
  by_cases none : ds = []
  · simp [none]
  · simp only [none, if_false, ne_eq, not_false_eq_true, true_and]
    cases read : digitsValue 0 ds with
    | none =>
      have some_other : ¬∀ c ∈ ds, c.isDigit = true := by
        intro digits
        rw [digitsValue_eq_some.mpr ⟨digits, rfl⟩] at read
        cases read
      simp [some_other]
    | some n =>
      obtain ⟨digits, rfl⟩ := digitsValue_eq_some.mp read
      simp only [bind, pure, Option.bind_some, Option.map_some, Option.some.injEq]
      constructor
      · rintro rfl
        exact ⟨digits, rfl⟩
      · exact fun same => same.2.symm

private theorem point_not_mem {cs : List Char} {c : Int} (writes : Writes cs c) : '.' ∉ cs := by
  intro member
  have among := writes.mem member
  exact absurd among (by decide)

private theorem ne_point_of_not_mem {cs : List Char} (clean : '.' ∉ cs) : ∀ c ∈ cs, (c != '.') = true := by
  intro c member
  rw [bne_iff_ne]
  rintro rfl
  exact clean member

private theorem mantissa?_of_not_mem {cs : List Char} (clean : '.' ∉ cs) : mantissa? cs = some (cs, 0) := by
  have none : cs.count '.' = 0 := List.count_eq_zero.mpr clean
  have rest : cs.dropWhile (· != '.') = [] := List.dropWhile_eq_nil_iff.mpr (ne_point_of_not_mem clean)
  have front : cs.takeWhile (· != '.') = cs := List.takeWhile_eq_self_iff.mpr (ne_point_of_not_mem clean)
  simp [mantissa?, none, rest, front]

private theorem mantissa?_append {before behind : List Char} (clean : '.' ∉ before) (after : '.' ∉ behind) :
    mantissa? (before ++ '.' :: behind) = some (before ++ behind, behind.length) := by
  have all := ne_point_of_not_mem clean
  have once : (before ++ '.' :: behind).count '.' = 1 := by
    simp [List.count_eq_zero.mpr clean, List.count_eq_zero.mpr after]
  simp [mantissa?, once, List.takeWhile_append_of_pos all, List.dropWhile_append_of_pos all]

private theorem mantissa?_eq_some {cs ds : List Char} {places : Nat} :
    mantissa? cs = some (ds, places) ↔ ('.' ∉ cs ∧ ds = cs ∧ places = 0) ∨
      ∃ before behind, cs = before ++ '.' :: behind ∧ '.' ∉ before ∧ '.' ∉ behind ∧ ds = before ++ behind ∧
        places = behind.length := by
  constructor
  · intro read
    by_cases clean : '.' ∈ cs
    · obtain ⟨before, behind, rfl, first⟩ := List.eq_append_cons_of_mem clean
      have after : '.' ∉ behind := by
        intro again
        have twice := List.count_pos_iff.mpr again
        have many : 1 < (before ++ '.' :: behind).count '.' := by
          simp only [List.count_append, List.count_cons_self]
          omega
        rw [mantissa?, if_pos many] at read
        cases read
      rw [mantissa?_append first after] at read
      cases read
      exact .inr ⟨before, behind, rfl, first, after, rfl, rfl⟩
    · rw [mantissa?_of_not_mem clean] at read
      cases read
      exact .inl ⟨clean, rfl, rfl⟩
  · rintro (⟨clean, rfl, rfl⟩ | ⟨before, behind, rfl, clean, after, rfl, rfl⟩)
    · exact mantissa?_of_not_mem clean
    · exact mantissa?_append clean after

theorem writesMantissa_iff {cs : List Char} {c : Int} {places : Nat} :
    WritesMantissa true cs c places ↔ ∃ ds, mantissa? cs = some (ds, places) ∧ coefficient? ds = some c := by
  constructor
  · intro mantissa
    cases mantissa with
    | whole writes =>
      exact ⟨cs, mantissa?_eq_some.mpr (.inl ⟨point_not_mem writes, rfl, rfl⟩), coefficient?_eq_some.mpr writes⟩
    | @point before behind _ writes _ =>
      have clean := point_not_mem writes
      rw [List.mem_append, not_or] at clean
      exact ⟨_, mantissa?_eq_some.mpr (.inr ⟨before, behind, rfl, clean.1, clean.2, rfl, rfl⟩),
        coefficient?_eq_some.mpr writes⟩
  · rintro ⟨ds, split, read⟩
    have writes := coefficient?_eq_some.mp read
    rcases mantissa?_eq_some.mp split with ⟨_, rfl, rfl⟩ | ⟨before, behind, rfl, _, _, rfl, rfl⟩
    · exact .whole writes
    · exact .point writes (.inl rfl)

theorem WritesMantissa.unmarked {leads : Bool} {cs : List Char} {c : Int} {places : Nat}
    (mantissa : WritesMantissa leads cs c places) : ∀ d ∈ cs, (d != 'e' && d != 'E') = true := by
  have signed : ∀ {cs : List Char}, Writes cs c → ∀ d ∈ cs, (d != 'e' && d != 'E') = true := by
    intro cs writes d member
    rw [Bool.and_eq_true, bne_iff_ne, bne_iff_ne]
    constructor
    · rintro rfl
      exact absurd (writes.mem member) (by decide)
    · rintro rfl
      exact absurd (writes.mem member) (by decide)
  intro d member
  cases mantissa with
  | whole writes => exact signed writes d member
  | point writes _ =>
    rcases List.mem_append.mp member with before | behind
    · exact signed writes d (List.mem_append_left _ before)
    · rcases List.mem_cons.mp behind with rfl | after
      · decide
      · exact signed writes d (List.mem_append_right _ after)

private theorem splitExponent_spec (cs : List Char) : splitExponent cs = (cs, none) ∨
    ∃ front mark rest, cs = front ++ mark :: rest ∧ (mark = 'e' ∨ mark = 'E') ∧
      splitExponent cs = (front, some rest) := by
  have whole := List.takeWhile_append_dropWhile (p := fun c => c != 'e' && c != 'E') (l := cs)
  unfold splitExponent
  cases tail : cs.dropWhile fun c => c != 'e' && c != 'E' with
  | nil => exact .inl rfl
  | cons mark rest =>
    have stops : ¬(mark != 'e' && mark != 'E') = true := by
      have head := List.head_dropWhile_not (fun c => c != 'e' && c != 'E') (by simp [tail] : cs.dropWhile _ ≠ [])
      simpa [tail] using head
    refine .inr ⟨_, mark, rest, ?_, ?_, rfl⟩
    · rw [← tail, whole]
    · by_cases small : mark = 'e'
      · exact .inl small
      · exact .inr (by simpa [small] using stops)

private theorem splitExponent_append {front : List Char} (clean : ∀ d ∈ front, (d != 'e' && d != 'E') = true) :
    splitExponent front = (front, none) ∧ ∀ mark rest, mark = 'e' ∨ mark = 'E' →
      splitExponent (front ++ mark :: rest) = (front, some rest) := by
  constructor
  · simp [splitExponent, List.dropWhile_eq_nil_iff.mpr clean]
  · rintro mark rest (rfl | rfl)
    · simp [splitExponent, List.dropWhile_append_of_pos clean, List.takeWhile_append_of_pos clean]
    · simp [splitExponent, List.dropWhile_append_of_pos clean, List.takeWhile_append_of_pos clean]

private theorem exponentDigits_eq_ok {ds : List Char} {acc n : Nat} (small : acc < 2 ^ 32) :
    exponentDigits acc ds = .ok n ↔
      (∀ c ∈ ds, c.isDigit = true) ∧ n = Nat.ofDigitChars 10 ds acc ∧ n < 2 ^ 32 := by
  induction ds generalizing acc with
  | nil =>
    simp only [exponentDigits, Except.ok.injEq, List.not_mem_nil, false_imp_iff, implies_true,
      Nat.ofDigitChars_nil, true_and]
    constructor
    · rintro rfl
      exact ⟨rfl, small⟩
    · exact fun same => same.1.symm
  | cons c rest ih =>
    have zero : '0'.toNat = 48 := rfl
    rw [Nat.ofDigitChars_cons, zero, List.forall_mem_cons]
    unfold exponentDigits
    by_cases digit : c.isDigit = true
    · simp only [if_pos (Literal.isDigit_iff.mp digit), digit, true_and]
      by_cases far : 0x100000000 ≤ 10 * acc + (c.toNat - 48)
      · -- the number only grows from here on
        have least := Literal.le_ofDigitChars rest (10 * acc + (c.toNat - 48))
        simp only [far, if_true, reduceCtorEq, false_iff, not_and]
        intro _ same
        omega
      · simp only [far, if_false]
        exact ih (by omega)
    · rw [if_neg fun inside => digit (Literal.isDigit_iff.mpr inside)]
      simp [digit]

private theorem exponentValue_eq_ok {cs : List Char} {e : Int} :
    exponentValue (some cs) = .ok e ↔ Writes cs e ∧ isExponent e = true := by
  rw [exponentValue, Literal.writes_iff]
  generalize Literal.splitSign cs = parts
  obtain ⟨negative, ds⟩ := parts
  simp only [List.isEmpty_iff]
  by_cases none : ds = []
  · simp [none]
  · simp only [none, if_false, ne_eq, not_false_eq_true, true_and]
    cases read : exponentDigits 0 ds with
    | error fault =>
      simp only [reduceCtorEq, false_iff, not_and, and_imp]
      rintro digits rfl bits
      have small : Nat.ofDigitChars 10 ds 0 < 2 ^ 32 := by
        simp only [isExponent, Bool.and_eq_true, decide_eq_true_eq] at bits
        split at bits
        · omega
        · omega
      rw [(exponentDigits_eq_ok (by decide)).mpr ⟨digits, rfl, small⟩] at read
      cases read
    | ok n =>
      obtain ⟨digits, rfl, _⟩ := (exponentDigits_eq_ok (by decide)).mp read
      simp only
      constructor
      · intro found
        by_cases bits : isExponent (if negative then -(Nat.ofDigitChars 10 ds 0 : Int)
            else Nat.ofDigitChars 10 ds 0) = true
        · rw [if_pos bits, Except.ok.injEq] at found
          exact ⟨⟨digits, found.symm⟩, found ▸ bits⟩
        · rw [if_neg bits] at found
          cases found
      · rintro ⟨⟨_, rfl⟩, bits⟩
        exact if_pos bits

private theorem parse_of_split {text : String} {front : List Char} {mark : Option (List Char)}
    (split : splitExponent text.toList = (front, mark)) {d : Decimal} :
    parse text = .ok d ↔ ∃ places e, exponentValue mark = .ok e ∧ WritesMantissa true front d.coefficient places ∧
      isExponent d.exponent = true ∧ d.exponent = e - places := by
  unfold parse
  rw [split]
  simp only
  constructor
  · intro read
    split at read
    · cases read
    · cases read
    · rename_i e exponent
      split at read
      · cases read
      · rename_i ds places digits
        split at read
        · cases read
        · rename_i c number
          split at read
          · rename_i bits
            cases read
            exact ⟨places, e, exponent, writesMantissa_iff.mpr ⟨ds, digits, number⟩, bits, rfl⟩
          · cases read
  · rintro ⟨places, e, exponent, writes, bits, last⟩
    obtain ⟨ds, digits, number⟩ := writesMantissa_iff.mp writes
    rw [last] at bits
    simp only [exponent, digits, number, ← last]
    rw [last, if_pos bits, ← last]

theorem parse_eq_ok {text : String} {d : Decimal} :
    parse text = .ok d ↔ ∃ places e, WritesDecimal true text.toList d.coefficient places e ∧
      isExponent e = true ∧ isExponent d.exponent = true ∧ d.exponent = e - places := by
  constructor
  · intro read
    rcases splitExponent_spec text.toList with split | ⟨front, mark, rest, whole, either, split⟩
    · obtain ⟨places, e, exponent, writes, bits, last⟩ := (parse_of_split split).mp read
      cases exponent
      refine ⟨places, 0, ?_, by decide, bits, last⟩
      rw [← List.append_nil text.toList]
      exact .intro writes .none
    · obtain ⟨places, e, exponent, writes, bits, last⟩ := (parse_of_split split).mp read
      obtain ⟨number, small⟩ := exponentValue_eq_ok.mp exponent
      refine ⟨places, e, ?_, small, bits, last⟩
      rw [whole]
      exact .intro writes (.marked either number)
  · rintro ⟨places, e, writes, small, bits, last⟩
    generalize chars : text.toList = cs at writes
    cases writes with
    | @intro front back _ _ _ mantissa exponent =>
      obtain ⟨alone, marked⟩ := splitExponent_append mantissa.unmarked
      cases exponent with
      | none =>
        rw [List.append_nil] at chars
        rw [← chars] at alone
        exact (parse_of_split alone).mpr ⟨places, 0, rfl, chars ▸ mantissa, bits, last⟩
      | @marked mark rest _ either number =>
        have split := marked mark rest either
        rw [← chars] at split
        exact (parse_of_split split).mpr
          ⟨places, e, exponentValue_eq_ok.mpr ⟨number, small⟩, mantissa, bits, last⟩

private theorem writes_signed {ds : List Char} (some_digit : ds ≠ []) (digits : ∀ c ∈ ds, c.isDigit = true)
    (negative : Prop) [Decidable negative] :
    Writes (if negative then '-' :: ds else ds)
      (if negative then -(Nat.ofDigitChars 10 ds 0 : Int) else Nat.ofDigitChars 10 ds 0) := by
  split
  · exact .minus some_digit digits
  · exact .plain some_digit digits

/-- The digits of a number, with zeros in front of them until one stands before the places. -/
def padded (n places : Nat) : List Char :=
  List.replicate (places + 1 - (natDigits n).length) '0' ++ natDigits n

private theorem isDigit_of_mem_padded {n places : Nat} {c : Char} (member : c ∈ padded n places) :
    c.isDigit = true := by
  rcases List.mem_append.mp member with zero | digit
  · rw [List.eq_of_mem_replicate zero]
    decide
  · exact Nat.isDigit_of_mem_toDigits (by decide) (by decide) digit

private theorem lt_length_padded (n places : Nat) : places < (padded n places).length := by
  rw [padded, List.length_append, List.length_replicate]
  omega

private theorem ofDigitChars_padded (n places : Nat) : Nat.ofDigitChars 10 (padded n places) 0 = n := by
  rw [padded, natDigits, Nat.ofDigitChars_append, Nat.ofDigitChars_replicate_zero, Nat.mul_zero,
    Nat.ofDigitChars_toDigits (by decide) (by decide)]

private theorem padded_parts (n places : Nat) : ∃ whole fraction, whole ≠ [] ∧ fraction.length ≤ places ∧
    (∀ c ∈ whole ++ fraction, c.isDigit = true) ∧
    n = Nat.ofDigitChars 10 (whole ++ fraction) 0 * 10 ^ (places - fraction.length) ∧
    (padded n places).take ((padded n places).length - places) = whole ∧
    ((padded n places).drop ((padded n places).length - places)).rdropWhile (· == '0') = fraction := by
  have long := lt_length_padded n places
  have parts := List.take_append_drop ((padded n places).length - places) (padded n places)
  obtain ⟨k, zeros⟩ := exists_rdropWhile_append_replicate '0'
    ((padded n places).drop ((padded n places).length - places))
  have behind : ((padded n places).drop ((padded n places).length - places)).length = places := by
    rw [List.length_drop]
    omega
  refine ⟨_, _, ?_, ?_, ?_, ?_, rfl, rfl⟩
  · rw [← List.length_pos_iff, List.length_take]
    omega
  · rw [zeros, List.length_append, List.length_replicate] at behind
    omega
  · intro c member
    have inside : c ∈ padded n places := by
      rw [← parts, zeros, ← List.append_assoc]
      exact List.mem_append_left _ member
    exact isDigit_of_mem_padded inside
  · have number := ofDigitChars_padded n places
    rw [zeros, List.length_append, List.length_replicate] at behind
    rw [← parts, zeros, ← List.append_assoc, Nat.ofDigitChars_append, Nat.ofDigitChars_replicate_zero] at number
    rw [show places - _ = k by omega, mul_comm]
    exact number.symm

/-- A scaled number is shown by a mantissa whose places are no more than those of the scale. -/
theorem writes_plain (n : Int) (places : Nat) : ∃ (c : Int) (p : Nat), p ≤ places ∧
    WritesMantissa false (plain n places).toList c p ∧ n = c * 10 ^ (places - p) := by
  obtain ⟨whole, fraction, before, most, digits, magnitude, front, back⟩ := padded_parts n.natAbs places
  have text : (plain n places).toList =
      if n < 0 then '-' :: (if fraction.isEmpty then whole else whole ++ '.' :: fraction)
      else if fraction.isEmpty then whole else whole ++ '.' :: fraction := by
    rw [← front, ← back]
    exact String.toList_ofList
  have writes := writes_signed (fun none => before (List.append_eq_nil_iff.mp none).1) digits (n < 0)
  have scaled : n = (if n < 0 then -(Nat.ofDigitChars 10 (whole ++ fraction) 0 : Int)
      else Nat.ofDigitChars 10 (whole ++ fraction) 0) * 10 ^ (places - fraction.length) := by
    have absolute : (n.natAbs : Int) =
        (Nat.ofDigitChars 10 (whole ++ fraction) 0 : Int) * 10 ^ (places - fraction.length) := by
      exact_mod_cast magnitude
    split
    · rw [neg_mul, ← absolute]
      omega
    · rw [← absolute]
      omega
  refine ⟨_, fraction.length, most, ?_, scaled⟩
  rw [text]
  by_cases none : fraction = []
  · subst none
    simp only [List.append_nil] at writes ⊢
    exact .whole writes
  · have pointed : (if n < 0 then '-' :: (whole ++ '.' :: fraction) else whole ++ '.' :: fraction) =
        (if n < 0 then '-' :: whole else whole) ++ '.' :: fraction := by
      split <;> rfl
    have plain : (if n < 0 then '-' :: (whole ++ fraction) else whole ++ fraction) =
        (if n < 0 then '-' :: whole else whole) ++ fraction := by
      split <;> rfl
    rw [plain] at writes
    simp only [List.isEmpty_iff, none, if_false]
    rw [pointed]
    exact .point writes (.inr fun d member => digits d (List.mem_append_right _ member))

theorem WritesMantissa.leading {leads : Bool} {cs : List Char} {c : Int} {places : Nat}
    (mantissa : WritesMantissa leads cs c places) : WritesMantissa true cs c places := by
  cases mantissa with
  | whole writes => exact .whole writes
  | point writes _ => exact .point writes (.inl rfl)

private theorem scaled_eq_div {n c : Int} {p places : Nat} (most : p ≤ places) (scaled : n = c * 10 ^ (places - p)) :
    (n / 10 ^ places : ℚ) = c * 10 ^ (0 - (p : Int)) := by
  have power : (10 : ℚ) ^ places = 10 ^ (places - p) * 10 ^ p := by
    rw [← pow_add, Nat.sub_add_cancel most]
  have positive : (10 : ℚ) ^ (places - p) ≠ 0 := pow_ne_zero _ (by norm_num)
  rw [scaled, power, zero_sub, zpow_neg, zpow_natCast]
  push_cast
  field_simp

theorem denotes_plain (n : Int) (places : Nat) : Denotes (plain n places) (n / 10 ^ places) := by
  obtain ⟨c, p, most, writes, scaled⟩ := writes_plain n places
  refine ⟨c, p, 0, ?_, scaled_eq_div most scaled⟩
  rw [← List.append_nil (plain n places).toList]
  exact .intro writes .none

end Decimal

end TradeWire

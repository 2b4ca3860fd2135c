import TradeWire.Number.Literal
import TradeWire.Proofs.Number.Words

/-! Integers in decimal digits are read as themselves when they have 64 bits. -/

set_option autoImplicit false
set_option relaxedAutoImplicit false

namespace TradeWire

namespace Literal

/-- Digits with a sign in front or without one, and the integer that they write. -/
inductive Writes : List Char → Int → Prop
  | plain {ds : List Char} (some_digit : ds ≠ []) (digits : ∀ c ∈ ds, c.isDigit = true) :
      Writes ds (Nat.ofDigitChars 10 ds 0)
  | plus {ds : List Char} (some_digit : ds ≠ []) (digits : ∀ c ∈ ds, c.isDigit = true) :
      Writes ('+' :: ds) (Nat.ofDigitChars 10 ds 0)
  | minus {ds : List Char} (some_digit : ds ≠ []) (digits : ∀ c ∈ ds, c.isDigit = true) :
      Writes ('-' :: ds) (-(Nat.ofDigitChars 10 ds 0 : Int))

theorem isDigit_iff {c : Char} : c.isDigit = true ↔ ('0' ≤ c && c ≤ '9') = true := by
  simp only [Char.isDigit, Bool.and_eq_true, decide_eq_true_eq, Char.le_def, ge_iff_le]

theorem splitSign_of_digits {ds : List Char} (digits : ∀ c ∈ ds, c.isDigit = true) :
    splitSign ds = (false, ds) := by
  unfold splitSign
  split
  · exact absurd (digits '-' (by simp)) (by decide)
  · exact absurd (digits '+' (by simp)) (by decide)
  · rfl

theorem writes_iff {cs : List Char} {n : Int} :
    Writes cs n ↔ (splitSign cs).2 ≠ [] ∧ (∀ c ∈ (splitSign cs).2, c.isDigit = true) ∧
      n = if (splitSign cs).1 then -(Nat.ofDigitChars 10 (splitSign cs).2 0 : Int)
        else Nat.ofDigitChars 10 (splitSign cs).2 0 := by
  constructor
  · intro writes
    cases writes with
    | plain some_digit digits =>
      rw [splitSign_of_digits digits]
      exact ⟨some_digit, digits, by simp⟩
    | plus some_digit digits => exact ⟨some_digit, digits, rfl⟩
    | minus some_digit digits => exact ⟨some_digit, digits, rfl⟩
  · rintro ⟨some_digit, digits, rfl⟩
    generalize parts : splitSign cs = pair at some_digit digits ⊢
    unfold splitSign at parts
    split at parts
    · subst parts
      exact .minus some_digit digits
    · subst parts
      exact .plus some_digit digits
    · subst parts
      exact .plain some_digit digits

theorem digitValue?_eq_some {c : Char} {d : Nat} :
    (digitValue? c = some d ∧ d < 10) ↔ c.isDigit = true ∧ d = c.toNat - 48 := by
  rw [isDigit_iff]
  unfold digitValue?
  by_cases digit : ('0' ≤ c && c ≤ '9') = true
  · have small : c.toNat ≤ 57 := by
      simp only [Bool.and_eq_true, decide_eq_true_eq, Char.le_def] at digit
      exact digit.2
    simp only [digit, if_true, Option.some.injEq, true_and]
    omega
  · simp only [digit, if_false, Bool.false_eq_true, false_and, iff_false, not_and]
    intro found
    split at found
    · rename_i letter
      simp only [Bool.and_eq_true, decide_eq_true_eq, Char.le_def] at letter
      have least : 97 ≤ c.toNat := letter.1
      cases found
      omega
    · split at found
      · rename_i letter
        simp only [Bool.and_eq_true, decide_eq_true_eq, Char.le_def] at letter
        have least : 65 ≤ c.toNat := letter.1
        cases found
        omega
      · cases found

theorem le_ofDigitChars (ds : List Char) (acc : Nat) : acc ≤ Nat.ofDigitChars 10 ds acc := by
  rw [Nat.ofDigitChars_eq_ofDigitChars_zero]
  have power : 0 < 10 ^ ds.length := Nat.pow_pos (by decide)
  have product := Nat.le_mul_of_pos_left acc power
  omega

private theorem digits_eq_ok {ds : List Char} {acc n : Nat} (small : acc < 2 ^ 64) :
    digits 10 false acc ds = .ok n ↔
      (∀ c ∈ ds, c.isDigit = true) ∧ n = Nat.ofDigitChars 10 ds acc ∧ n < 2 ^ 64 := by
  induction ds generalizing acc with
  | nil =>
    simp only [digits, Except.ok.injEq, Nat.ofDigitChars_nil, List.not_mem_nil, false_imp_iff, implies_true,
      true_and]
    constructor
    · rintro rfl
      exact ⟨rfl, small⟩
    · exact fun same => same.1.symm
  | cons c rest ih =>
    have zero : '0'.toNat = 48 := rfl
    rw [Nat.ofDigitChars_cons, zero, List.forall_mem_cons]
    unfold digits
    simp only [Bool.false_and, Bool.false_eq_true, if_false]
    by_cases digit : c.isDigit = true
    · obtain ⟨value, below⟩ := digitValue?_eq_some.mpr ⟨digit, rfl⟩
      have next : acc * 10 + (c.toNat - 48) = 10 * acc + (c.toNat - 48) := by omega
      simp only [value, Nat.not_le.mpr below, if_false, digit, true_and, next]
      by_cases far : 0x10000000000000000 ≤ 10 * acc + (c.toNat - 48)
      · -- the number only grows from here on
        have least := le_ofDigitChars rest (10 * acc + (c.toNat - 48))
        simp only [far, if_true, reduceCtorEq, false_iff, not_and]
        intro _ same
        omega
      · simp only [far, if_false]
        exact ih (by omega)
    · cases value : digitValue? c with
      | none => simp [digit]
      | some d =>
        have large : 10 ≤ d := by
          by_contra below
          exact digit (digitValue?_eq_some.mp ⟨value, Nat.not_le.mp below⟩).1
        simp [digit, large]

theorem signed_eq_ok {negative : Bool} {magnitude : Except Fault Nat} {n : Int} :
    signed negative magnitude = .ok n ↔ ∃ k : Nat, magnitude = .ok k ∧
      n = (if negative then -(k : Int) else k) ∧ Word.minSigned ≤ n ∧ n ≤ Word.maxSigned := by
  unfold signed Word.minSigned Word.maxSigned
  cases magnitude with
  | error fault => simp
  | ok k =>
    simp only [Except.ok.injEq, exists_eq_left']
    cases negative with
    | true | false =>
      simp only [if_true, if_false, Bool.false_eq_true]
      split
      · simp only [Except.ok.injEq]
        constructor
        · rintro rfl
          exact ⟨rfl, by omega, by omega⟩
        · exact fun same => same.1.symm
      · simp only [reduceCtorEq, false_iff]
        rintro ⟨rfl, _, _⟩
        omega

/-- An integer literal is read when it has 64 bits, and as what it writes. -/
theorem decimal_eq_ok {cs : List Char} {n : Int} :
    decimal (String.ofList cs) = .ok n ↔ Writes cs n ∧ Word.minSigned ≤ n ∧ n ≤ Word.maxSigned := by
  unfold decimal
  rw [String.toList_ofList, writes_iff]
  obtain ⟨negative, ds⟩ := splitSign cs
  simp only [List.isEmpty_iff]
  by_cases none : ds = []
  · simp [none]
  · simp only [none, if_false, not_false_eq_true, ne_eq, true_and, signed_eq_ok]
    constructor
    · rintro ⟨k, read, rfl, least, most⟩
      obtain ⟨plain, rfl, _⟩ := (digits_eq_ok (by decide)).mp read
      exact ⟨⟨plain, rfl⟩, least, most⟩
    · rintro ⟨⟨plain, rfl⟩, least, most⟩
      have small : Nat.ofDigitChars 10 ds 0 < 2 ^ 64 := by
        unfold Word.minSigned at least
        unfold Word.maxSigned at most
        cases negative with
        | true =>
          simp only [if_true] at least
          omega
        | false =>
          simp only [Bool.false_eq_true, if_false] at most
          omega
      exact ⟨_, (digits_eq_ok (by decide)).mpr ⟨plain, rfl, small⟩, rfl, least, most⟩

theorem Writes.mem {cs : List Char} {n : Int} (writes : Writes cs n) {c : Char} (member : c ∈ cs) :
    c.isDigit = true ∨ c = '+' ∨ c = '-' := by
  cases writes with
  | plain _ digits => exact .inl (digits c member)
  | plus _ digits =>
    rcases List.mem_cons.mp member with rfl | behind
    · exact .inr (.inl rfl)
    · exact .inl (digits c behind)
  | minus _ digits =>
    rcases List.mem_cons.mp member with rfl | behind
    · exact .inr (.inr rfl)
    · exact .inl (digits c behind)

end Literal

end TradeWire

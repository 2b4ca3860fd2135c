import Mathlib.Data.List.DropRight
import Mathlib.Data.Nat.Digits.Defs
import TradeWire.Number.Literal
import TradeWire.Proofs.Number.Integers
import TradeWire.Proofs.Number.Words
import TradeWire.Text.Blank

/-! What literals with signs, base marks and underscores denote. -/

set_option autoImplicit false
set_option relaxedAutoImplicit false

namespace TradeWire

theorem Text.trim_trim (s : String) : trim (trim s) = trim s := by
  have inner : ∀ cs : List Char, cs.dropWhile isBlank = cs →
      (cs.rdropWhile isBlank).dropWhile isBlank = cs.rdropWhile isBlank := by
    intro cs clean
    rw [List.dropWhile_eq_self_iff] at clean ⊢
    intro inside
    have front := List.rdropWhile_prefix isBlank cs
    have whole : 0 < cs.length := Nat.lt_of_lt_of_le inside front.length_le
    have same := front.getElem inside
    rw [same]
    exact clean whole
  have chars := inner _ (List.dropWhile_idempotent isBlank s.toList)
  unfold trim
  rw [String.toList_ofList]
  congr 1
  exact (congrArg (List.rdropWhile isBlank) chars).trans (List.rdropWhile_idempotent isBlank _)

namespace Literal

/-- The number that digits of a base write, the highest digit first. -/
def numberOf (base : Nat) (cs : List Char) : Nat := Nat.ofDigits base (cs.filterMap digitValue?).reverse

/-- The integer that a literal denotes. -/
def value (literal : String) : Int :=
  let (negative, cs) := splitSign literal.toList
  let (base, ds) := splitBase cs
  if negative then -(numberOf base ds : Int) else numberOf base ds

private theorem digitValue?_underscore : digitValue? '_' = none := by decide

private theorem ofDigits_of_digits {base acc n : Nat} {skips : Bool} {cs : List Char}
    (read : digits base skips acc cs = .ok n) :
    n = Nat.ofDigits base ((cs.filterMap digitValue?).reverse ++ [acc]) := by
  induction cs generalizing acc with
  | nil =>
    cases read
    simp
  | cons c rest ih =>
    unfold digits at read
    split at read
    · rename_i skipped
      have underscore : c = '_' := by simp_all
      rw [underscore, List.filterMap_cons_none digitValue?_underscore]
      exact ih read
    · split at read
      · cases read
      · rename_i d known
        split at read
        · cases read
        · split at read
          · cases read
          · have below := ih read
            rw [List.filterMap_cons_some known, List.reverse_cons, below]
            simp only [Nat.ofDigits_append, Nat.ofDigits_singleton, List.length_append,
              List.length_singleton, Nat.pow_succ]
            ring

private theorem digits_lt {base acc n : Nat} {skips : Bool} {cs : List Char} (small : acc < 2 ^ 64)
    (read : digits base skips acc cs = .ok n) : n < 2 ^ 64 := by
  induction cs generalizing acc with
  | nil =>
    cases read
    exact small
  | cons c rest ih =>
    unfold digits at read
    split at read
    · exact ih small read
    · split at read
      · cases read
      · split at read
        · cases read
        · split at read
          · cases read
          · rename_i inside
            exact ih (by omega) read

theorem magnitude_eq_ok {cs : List Char} {n : Nat} (read : magnitude cs = .ok n) :
    digits (splitBase cs).1 true 0 (splitBase cs).2 = .ok n := by
  unfold magnitude at read
  split at read
  · cases read
  · simp only at read
    split at read
    · cases read
    · rename_i read'
      split at read
      · cases read
      · cases read
        exact read'

private theorem numberOf_of_magnitude {cs : List Char} {n : Nat} (read : magnitude cs = .ok n) :
    numberOf (splitBase cs).1 (splitBase cs).2 = n ∧ n < 2 ^ 64 := by
  have whole := magnitude_eq_ok read
  refine ⟨?_, digits_lt (by decide) whole⟩
  rw [ofDigits_of_digits whole, Nat.ofDigits_append, Nat.ofDigits_singleton, Nat.mul_zero, Nat.add_zero]
  rfl

private theorem splitSign_of_magnitude {cs : List Char} {n : Nat} (read : magnitude cs = .ok n) :
    splitSign cs = (false, cs) := by
  have whole := magnitude_eq_ok read
  unfold splitSign
  split
  · exact absurd whole (by simp [splitBase, digits, show digitValue? '-' = none by decide])
  · exact absurd whole (by simp [splitBase, digits, show digitValue? '+' = none by decide])
  · rfl

theorem value_of_unsigned {literal : String} {n : Nat} (read : unsigned literal = .ok n) :
    value literal = n ∧ n < 2 ^ 64 := by
  obtain ⟨number, small⟩ := numberOf_of_magnitude read
  refine ⟨?_, small⟩
  simp only [value, splitSign_of_magnitude read, Bool.false_eq_true, if_false, number]

theorem value_of_integer {literal : String} {n : Int} (read : integer literal = .ok n) :
    value literal = n ∧ Word.minSigned ≤ n ∧ n ≤ Word.maxSigned := by
  unfold integer signed at read
  simp only at read
  split at read
  · cases read
  · rename_i k known
    obtain ⟨number, _⟩ := numberOf_of_magnitude known
    unfold Word.minSigned Word.maxSigned
    split at read
    · rename_i negative
      split at read
      · cases read
        refine ⟨?_, by omega, by omega⟩
        simp only [value, negative, if_true, number]
      · cases read
    · rename_i positive
      split at read
      · cases read
        refine ⟨?_, by omega, by omega⟩
        simp only [value, positive, Bool.false_eq_true, if_false, number]
      · cases read

def AreDigits (base : Nat) (cs : List Char) : Prop := ∀ c ∈ cs, ∃ d < base, digitValue? c = some d

theorem AreDigits.no_underscore {base : Nat} {cs : List Char} (proper : AreDigits base cs) : '_' ∉ cs := by
  intro member
  obtain ⟨_, _, known⟩ := proper '_' member
  cases known

private theorem le_ofDigits_append (base acc : Nat) (positive : 0 < base) (ds : List Nat) :
    acc ≤ Nat.ofDigits base (ds ++ [acc]) := by
  rw [Nat.ofDigits_append, Nat.ofDigits_singleton]
  have power : 0 < base ^ ds.length := Nat.pow_pos positive
  have product := Nat.le_mul_of_pos_left acc power
  omega

private theorem exists_digits {base acc : Nat} {skips : Bool} {cs : List Char} (proper : AreDigits base cs)
    (small : Nat.ofDigits base ((cs.filterMap digitValue?).reverse ++ [acc]) < 2 ^ 64) :
    ∃ n, digits base skips acc cs = .ok n := by
  induction cs generalizing acc with
  | nil => exact ⟨acc, rfl⟩
  | cons c rest ih =>
    obtain ⟨⟨d, below, known⟩, others⟩ := List.forall_mem_cons.mp proper
    have solid : c ≠ '_' := fun same => proper.no_underscore (same ▸ List.mem_cons_self)
    have next : Nat.ofDigits base ((rest.filterMap digitValue?).reverse ++ [acc * base + d]) < 2 ^ 64 := by
      rw [List.filterMap_cons_some known, List.reverse_cons] at small
      refine lt_of_eq_of_lt ?_ small
      simp only [Nat.ofDigits_append, Nat.ofDigits_singleton, List.length_append, List.length_singleton,
        Nat.pow_succ]
      ring
    have least := le_ofDigits_append base (acc * base + d) (Nat.zero_lt_of_lt below)
      (rest.filterMap digitValue?).reverse
    have inside : ¬0x10000000000000000 ≤ acc * base + d := by omega
    unfold digits
    simp only [solid, known, Nat.not_le.mpr below, inside, beq_iff_eq, Bool.and_eq_true, and_false, if_false]
    exact ih others next

private theorem magnitude_iff {cs : List Char} (some_char : cs ≠ []) (clean : '_' ∉ cs)
    (proper : AreDigits (splitBase cs).1 (splitBase cs).2) {n : Nat} :
    magnitude cs = .ok n ↔ n = numberOf (splitBase cs).1 (splitBase cs).2 ∧ n < 2 ^ 64 := by
  constructor
  · intro read
    obtain ⟨number, small⟩ := numberOf_of_magnitude read
    exact ⟨number.symm, small⟩
  · rintro ⟨rfl, small⟩
    have whole : Nat.ofDigits (splitBase cs).1 (((splitBase cs).2.filterMap digitValue?).reverse ++ [0]) < 2 ^ 64 := by
      rw [Nat.ofDigits_append, Nat.ofDigits_singleton, Nat.mul_zero, Nat.add_zero]
      exact small
    obtain ⟨n, read⟩ := @exists_digits _ 0 true _ proper whole
    have known : magnitude cs = .ok n := by
      simp [magnitude, some_char, read, clean]
    obtain ⟨number, _⟩ := numberOf_of_magnitude known
    rw [known, number]

/-- A literal of proper digits is read when its integer has 64 bits, and as that integer. -/
theorem integer_iff {literal : String} (some_char : (splitSign literal.toList).2 ≠ [])
    (clean : '_' ∉ (splitSign literal.toList).2)
    (proper : AreDigits (splitBase (splitSign literal.toList).2).1 (splitBase (splitSign literal.toList).2).2)
    {n : Int} :
    integer literal = .ok n ↔ n = value literal ∧ Word.minSigned ≤ n ∧ n ≤ Word.maxSigned := by
  constructor
  · intro read
    obtain ⟨known, range⟩ := value_of_integer read
    exact ⟨known.symm, range⟩
  · rintro ⟨known, least, most⟩
    refine signed_eq_ok.mpr ⟨_, (magnitude_iff some_char clean proper).mpr ⟨rfl, ?_⟩, known, least, most⟩
    simp only [value] at known
    unfold Word.minSigned at least
    unfold Word.maxSigned at most
    split at known <;> omega

end Literal

end TradeWire

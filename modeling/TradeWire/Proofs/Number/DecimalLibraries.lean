import TradeWire.Proofs.Number.Decimals
import TradeWire.Schema.Reader

/-! What is asked of a decimal library so that scaled numbers are exact, and the library that meets it. -/

set_option autoImplicit false
set_option relaxedAutoImplicit false

namespace TradeWire

open Schema (maxPrecision)

/-- The text is a literal of a whole number of units of `10 ^ -places`. -/
def Decimal.Counts (text : String) (places : Nat) (n : Int) : Prop :=
  ∃ q, Denotes text q ∧ (n : ℚ) = q * 10 ^ places

namespace DecimalLibrary

open Decimal (Denotes Counts)

/-- The library is exact on some texts, for the places that a scaled field may have: it parses them, and it
shifts, truncates and prints, without rounding. Of other texts nothing is asked. -/
structure IsExactOn (lib : DecimalLibrary) (value : lib.Number → ℚ) (texts : Set String) : Prop where
  /-- A literal is read as the number it denotes, and what is no literal is refused. -/
  parses : ∀ text ∈ texts, ∀ q, (∃ d, lib.ofText text = .ok d ∧ value d = q) ↔ Denotes text q
  exponents : ∀ d, ∃ c : ℤ, value d = c * 10 ^ lib.exponent d
  compares : ∀ a b, lib.equal a b = true ↔ value a = value b
  /-- No digits are left beyond the places, and if there were none nothing is cut off. -/
  truncates : ∀ d (places : ℕ), places ≤ maxPrecision → ∃ n : ℤ, value (lib.truncate d places) = n / 10 ^ places ∧
    ∀ k : ℤ, value d = k / 10 ^ places → n = k
  shifts : ∀ text ∈ texts, ∀ d, lib.ofText text = .ok d → ∀ places : ℕ, places ≤ maxPrecision →
    value (lib.shift d places) = value d * 10 ^ places
  integers : ∀ d (n : ℤ), value d = n → lib.integer d = n
  scales : ∀ (n : ℤ) (places : ℕ), places ≤ maxPrecision → value (lib.ofUnits n (-places)) = n / 10 ^ places
  prints : ∀ (n : ℤ) (places : ℕ), places ≤ maxPrecision →
    lib.render n places ∈ texts ∧ Denotes (lib.render n places) (value (lib.ofUnits n (-places)))

namespace IsExactOn

variable {lib : DecimalLibrary} {value : lib.Number → ℚ} {texts : Set String} {text : String} {places : ℕ}

private theorem power_ne_zero (places : ℕ) : (10 : ℚ) ^ places ≠ 0 := pow_ne_zero _ (by norm_num)

private theorem refused_iff (exact : lib.IsExactOn value texts) (small : places ≤ maxPrecision) (d : lib.Number) :
    (lib.exponent d < -places && !lib.equal d (lib.truncate d places)) = true ↔
      ¬∃ n : ℤ, (n : ℚ) = value d * 10 ^ places := by
  obtain ⟨cut, truncated, whole⟩ := exact.truncates d places small
  rw [Bool.and_eq_true, decide_eq_true_eq, Bool.not_eq_true', ← Bool.not_eq_true, exact.compares]
  constructor
  · rintro ⟨-, unequal⟩ ⟨n, units⟩
    have same : value d = n / 10 ^ places := by
      rw [units, mul_div_cancel_right₀ _ (power_ne_zero places)]
    apply unequal
    rw [truncated, whole n same, same]
  · intro broken
    constructor
    · -- with an exponent of at least `-places` the digits end where the units do
      by_contra large
      obtain ⟨c, written⟩ := exact.exponents d
      obtain ⟨k, shift⟩ := Int.eq_ofNat_of_zero_le (show 0 ≤ lib.exponent d + places by omega)
      apply broken
      refine ⟨c * 10 ^ k, ?_⟩
      rw [written, mul_assoc, ← zpow_natCast (10 : ℚ) places, ← zpow_add₀ (by norm_num), shift, zpow_natCast]
      push_cast
      rfl
    · intro same
      apply broken
      refine ⟨cut, ?_⟩
      rw [same, truncated, div_mul_cancel₀ _ (power_ne_zero places)]

/-- Units are counted exactly when the text is a literal of a whole number of them. -/
theorem units_eq_ok (exact : lib.IsExactOn value texts) (member : text ∈ texts) (small : places ≤ maxPrecision)
    {n : ℤ} : lib.units text places = .ok n ↔ Counts text places n := by
  unfold units
  cases read : lib.ofText text with
  | error reason =>
    simp only [reduceCtorEq, false_iff]
    rintro ⟨q, denotes, -⟩
    obtain ⟨d, found, -⟩ := (exact.parses text member q).mpr denotes
    rw [read] at found
    cases found
  | ok d =>
    have denotes : Denotes text (value d) := (exact.parses text member (value d)).mp ⟨d, read, rfl⟩
    have only : ∀ q, Denotes text q → q = value d := by
      intro q also
      obtain ⟨other, found, rfl⟩ := (exact.parses text member q).mpr also
      rw [read, Except.ok.injEq] at found
      rw [found]
    simp only
    by_cases broken : (lib.exponent d < -places && !lib.equal d (lib.truncate d places)) = true
    · rw [if_pos broken]
      simp only [reduceCtorEq, false_iff]
      rintro ⟨q, also, units⟩
      rw [only q also] at units
      exact (exact.refused_iff small d).mp broken ⟨n, units⟩
    · rw [if_neg broken, Except.ok.injEq]
      obtain ⟨k, units⟩ : ∃ k : ℤ, (k : ℚ) = value d * 10 ^ places := by
        by_contra none
        exact broken ((exact.refused_iff small d).mpr none)
      have counted : lib.integer (lib.shift d places) = k := by
        apply exact.integers
        rw [exact.shifts text member d read places small, units]
      rw [counted]
      constructor
      · rintro rfl
        exact ⟨value d, denotes, units⟩
      · rintro ⟨q, also, other⟩
        rw [only q also, ← units] at other
        exact_mod_cast other.symm

theorem counts_unique (exact : lib.IsExactOn value texts) (member : text ∈ texts) (small : places ≤ maxPrecision)
    {n k : ℤ} (counts : Counts text places n) (again : Counts text places k) : n = k := by
  have units := (exact.units_eq_ok member small).mpr counts
  rw [(exact.units_eq_ok member small).mpr again, Except.ok.injEq] at units
  exact units.symm

theorem denotes_render (exact : lib.IsExactOn value texts) (small : places ≤ maxPrecision) (n : ℤ) :
    lib.render n places ∈ texts ∧ Denotes (lib.render n places) (n / 10 ^ places) := by
  obtain ⟨member, denotes⟩ := exact.prints n places small
  rw [exact.scales n places small] at denotes
  exact ⟨member, denotes⟩

theorem units_render (exact : lib.IsExactOn value texts) (small : places ≤ maxPrecision) (n : ℤ) :
    lib.units (lib.render n places) places = .ok n := by
  obtain ⟨member, denotes⟩ := exact.denotes_render small n
  apply (exact.units_eq_ok member small).mpr
  exact ⟨_, denotes, (div_mul_cancel₀ _ (power_ne_zero places)).symm⟩

end IsExactOn

end DecimalLibrary

namespace Decimal

/-! ## The arithmetic of decimals -/

private theorem intPow_eq (k : ℕ) : Int.pow 10 k = (10 : ℤ) ^ k := rfl

private theorem value_shifted (c e : ℤ) (places : ℕ) : value ⟨c, e⟩ * 10 ^ places = c * 10 ^ (e + places) := by
  rw [value, zpow_add₀ (by norm_num), zpow_natCast, mul_assoc]

private theorem value_rescale_of_le {d : Decimal} {e : ℤ} (least : e ≤ d.exponent) :
    ((d.rescale e).coefficient : ℚ) * 10 ^ e = d.value := by
  unfold rescale
  split
  · rename_i zero
    simp [value, zero]
  · rw [if_neg (by omega)]
    obtain ⟨k, distance⟩ := Int.eq_ofNat_of_zero_le (show 0 ≤ d.exponent - e by omega)
    have exponent : d.exponent = k + e := by omega
    simp only [distance, Int.toNat_natCast, intPow_eq]
    rw [value, exponent, zpow_add₀ (by norm_num), zpow_natCast]
    push_cast
    rw [mul_assoc]

private theorem coefficient_rescale {d : Decimal} {e n : ℤ} (whole : d.value = n * 10 ^ e) :
    (d.rescale e).coefficient = n := by
  have power : (10 : ℚ) ^ e ≠ 0 := zpow_ne_zero _ (by norm_num)
  by_cases least : e ≤ d.exponent
  · have same := value_rescale_of_le least
    rw [whole] at same
    exact_mod_cast mul_right_cancel₀ power same
  · obtain ⟨k, distance⟩ := Int.eq_ofNat_of_zero_le (show 0 ≤ e - d.exponent by omega)
    have exponent : e = k + d.exponent := by omega
    have coefficient : d.coefficient = n * 10 ^ k := by
      have low : (10 : ℚ) ^ d.exponent ≠ 0 := zpow_ne_zero _ (by norm_num)
      rw [value, exponent, zpow_add₀ (by norm_num), zpow_natCast, ← mul_assoc] at whole
      exact_mod_cast mul_right_cancel₀ low whole
    have positive : (10 : ℤ) ^ k ≠ 0 := pow_ne_zero _ (by norm_num)
    unfold rescale
    split
    · rename_i zero
      rw [coefficient] at zero
      exact ((mul_eq_zero.mp zero).resolve_right positive).symm
    · rw [if_pos (by omega), distance, Int.toNat_natCast, intPow_eq, coefficient]
      exact Int.mul_tdiv_cancel n positive

private theorem exponent_rescale (d : Decimal) (e : ℤ) : (d.rescale e).exponent = e := by
  unfold rescale
  split
  · rfl
  · split <;> rfl

private theorem equal_iff (a b : Decimal) : a.equal b = true ↔ a.value = b.value := by
  have first := value_rescale_of_le (min_le_left a.exponent b.exponent)
  have second := value_rescale_of_le (min_le_right a.exponent b.exponent)
  have power : (10 : ℚ) ^ min a.exponent b.exponent ≠ 0 := zpow_ne_zero _ (by norm_num)
  rw [equal, beq_iff_eq, ← first, ← second, mul_left_inj' power, Int.cast_inj]

private theorem truncate_spec (d : Decimal) (places : ℕ) : ∃ n : ℤ, (d.truncate places).value = n / 10 ^ places ∧
    ∀ k : ℤ, d.value = k / 10 ^ places → n = k := by
  have power : ∀ n : ℤ, (n / 10 ^ places : ℚ) = n * 10 ^ (-(places : ℤ)) := by
    intro n
    rw [zpow_neg, zpow_natCast, div_eq_mul_inv]
  unfold truncate
  by_cases cuts : (0 ≤ (places : ℤ) && d.exponent < -places) = true
  · rw [if_pos cuts]
    refine ⟨(d.rescale (-places)).coefficient, ?_, ?_⟩
    · rw [value, exponent_rescale, power]
    · intro k whole
      rw [power] at whole
      exact coefficient_rescale whole
  · rw [if_neg cuts]
    have least : -(places : ℤ) ≤ d.exponent := by
      simp only [Bool.and_eq_true, decide_eq_true_eq] at cuts
      omega
    refine ⟨(d.rescale (-places)).coefficient, ?_, ?_⟩
    · rw [power, value_rescale_of_le least]
    · intro k whole
      rw [power] at whole
      exact coefficient_rescale whole

private theorem integer_eq {d : Decimal} {n : ℤ} (whole : d.value = n) : d.integer = n := by
  apply coefficient_rescale
  rw [whole, zpow_zero, mul_one]

private theorem addExponents_eq {a b : ℤ} (bits : isExponent (a + b) = true) : addExponents a b = a + b := by
  simp only [isExponent, Bool.and_eq_true, decide_eq_true_eq] at bits
  rw [addExponents, Int.bmod_eq_iff (by norm_num)]
  omega

/-! ## The texts on which they are exact -/

/-- The text is no literal, or one whose exponents have 32 bits, and still have with the places of a field. No
sign stands behind a point that leads: with a sign there, what is no literal would be read. -/
def IsRegular (text : String) : Prop :=
  ∀ c places e, WritesDecimal true text.toList c places e → WritesDecimal false text.toList c places e ∧
    isExponent e = true ∧ isExponent (e - places) = true ∧
      ∀ more : ℕ, more ≤ maxPrecision → isExponent (e - places + more) = true

private theorem WritesDecimal.leading {leads : Bool} {cs : List Char} {c e : ℤ} {places : ℕ}
    (writes : WritesDecimal leads cs c places e) : WritesDecimal true cs c places e := by
  cases writes with
  | intro mantissa exponent => exact .intro mantissa.leading exponent

private theorem parses_of_isRegular {text : String} (regular : IsRegular text) (q : ℚ) :
    (∃ d, parse text = .ok d ∧ d.value = q) ↔ Denotes text q := by
  constructor
  · rintro ⟨d, read, rfl⟩
    obtain ⟨places, e, writes, -, -, last⟩ := parse_eq_ok.mp read
    refine ⟨d.coefficient, places, e, (regular _ _ _ writes).1, ?_⟩
    rw [value, last]
  · rintro ⟨c, places, e, writes, rfl⟩
    obtain ⟨-, small, bits, -⟩ := regular _ _ _ writes.leading
    exact ⟨⟨c, e - places⟩, parse_eq_ok.mpr ⟨places, e, writes.leading, small, bits, rfl⟩, rfl⟩

/-- A mantissa without an exponent behind it is regular if it has no more places than a field. -/
theorem isRegular_of_writesMantissa {text : String} {c : ℤ} {places : ℕ}
    (writes : WritesMantissa false text.toList c places) (small : places ≤ maxPrecision) : IsRegular text := by
  intro c' places' e' other
  generalize chars : text.toList = cs at writes other
  cases other with
  | @intro front back _ _ _ mantissa exponent =>
    cases exponent with
    | none =>
      rw [List.append_nil] at writes ⊢
      obtain ⟨ds, split, number⟩ := writesMantissa_iff.mp mantissa
      obtain ⟨ds', split', number'⟩ := writesMantissa_iff.mp writes.leading
      rw [split, Option.some.injEq, Prod.mk.injEq] at split'
      obtain ⟨rfl, rfl⟩ := split'
      rw [number, Option.some.injEq] at number'
      subst number'
      have bound : maxPrecision = 18 := rfl
      refine ⟨?_, by decide, ?_, ?_⟩
      · rw [← List.append_nil front]
        exact .intro writes .none
      · simp only [isExponent, Bool.and_eq_true, decide_eq_true_eq]
        omega
      · intro more few
        simp only [isExponent, Bool.and_eq_true, decide_eq_true_eq]
        omega
    | @marked mark rest _ either _ =>
      have clean := writes.unmarked mark (by simp)
      rcases either with rfl | rfl
      · exact absurd clean (by decide)
      · exact absurd clean (by decide)

private theorem text_units (n : ℤ) (places : ℕ) : text ⟨n, -places⟩ = plain n places := by
  unfold text
  by_cases none : places = 0
  · subst none
    have integer : integer ⟨n, -(0 : ℕ)⟩ = n := integer_eq (by simp [value])
    rw [if_pos (by simp), integer]
  · rw [if_neg (by simp only; omega)]
    simp

end Decimal

/-- The standard library is exact on regular texts. -/
theorem DecimalLibrary.standard_isExactOn : standard.IsExactOn Decimal.value {text | Decimal.IsRegular text} where
  parses := fun _ regular q => Decimal.parses_of_isRegular regular q
  exponents := fun d => ⟨d.coefficient, rfl⟩
  compares := Decimal.equal_iff
  truncates := fun d places _ => d.truncate_spec places
  shifts := by
    intro text regular d read places small
    obtain ⟨p, e, writes, -, -, last⟩ := Decimal.parse_eq_ok.mp read
    obtain ⟨-, -, -, room⟩ := regular _ _ _ writes
    have bits := room places small
    rw [← last] at bits
    show Decimal.value ⟨d.coefficient, Decimal.addExponents d.exponent places⟩ = _
    rw [Decimal.addExponents_eq bits]
    exact (Decimal.value_shifted d.coefficient d.exponent places).symm
  integers := fun _ _ => Decimal.integer_eq
  scales := by
    intro n places _
    show (n : ℚ) * 10 ^ (-(places : ℤ)) = _
    rw [zpow_neg, zpow_natCast, div_eq_mul_inv]
  prints := by
    intro n places small
    have shown : standard.render n places = Decimal.plain n places := Decimal.text_units n places
    obtain ⟨c, p, most, writes, -⟩ := Decimal.writes_plain n places
    have value : (n : ℚ) * 10 ^ (-(places : ℤ)) = n / 10 ^ places := by
      rw [zpow_neg, zpow_natCast, div_eq_mul_inv]
    rw [shown]
    refine ⟨Decimal.isRegular_of_writesMantissa writes (most.trans small), ?_⟩
    show Decimal.Denotes _ ((n : ℚ) * 10 ^ (-(places : ℤ)))
    rw [value]
    exact Decimal.denotes_plain n places

end TradeWire

import TradeWire.Proofs.Layout.Constants
import TradeWire.Record.Access

/-! Each number in the range of an integer field has one pattern. -/

set_option autoImplicit false
set_option relaxedAutoImplicit false

namespace TradeWire.Word

def HasRoom (size : Nat) : Bool → Int → Prop
  | true, n => -2 ^ (8 * size - 1) ≤ n ∧ n < 2 ^ (8 * size - 1)
  | false, n => 0 ≤ n ∧ n < 2 ^ (8 * size)

instance (size : Nat) (signed : Bool) (n : Int) : Decidable (HasRoom size signed n) :=
  match signed with
  | true => inferInstanceAs (Decidable (-2 ^ (8 * size - 1) ≤ n ∧ n < 2 ^ (8 * size - 1)))
  | false => inferInstanceAs (Decidable (0 ≤ n ∧ n < 2 ^ (8 * size)))

/-- The number of a pattern in a field is one of 64 bits. -/
def IsNumber : Bool → Int → Prop
  | true, n => minSigned ≤ n ∧ n ≤ maxSigned
  | false, n => 0 ≤ n ∧ n < 2 ^ 64

private theorem numberOf_true (raw : UInt64) : Record.numberOf true raw = toSigned raw := by
  rw [Record.numberOf, if_pos rfl]

private theorem numberOf_false (raw : UInt64) : Record.numberOf false raw = raw.toNat := by
  rw [Record.numberOf, if_neg Bool.false_ne_true]

theorem isInRange_iff_hasRoom {size : Nat} {signed : Bool} {raw : UInt64} :
    IsInRange raw size signed ↔ HasRoom size signed (Record.numberOf signed raw) := by
  cases signed with
  | true => rw [numberOf_true, IsInRange, HasRoom]
  | false =>
    simp only [IsInRange, HasRoom, numberOf_false]
    constructor
    · intro small
      exact ⟨by omega, by exact_mod_cast small⟩
    · rintro ⟨_, small⟩
      exact_mod_cast small

theorem HasRoom.isNumber {size : Nat} (positive : 0 < size) (width : size ≤ 8) {signed : Bool} {n : Int}
    (room : HasRoom size signed n) : IsNumber signed n := by
  cases signed with
  | true =>
    have most : (2 : Int) ^ (8 * size - 1) ≤ 2 ^ 63 := pow_le_pow_right₀ (by norm_num) (by omega)
    simp only [HasRoom] at room
    simp only [IsNumber, minSigned, maxSigned]
    norm_num at most
    omega
  | false =>
    have most : (2 : Int) ^ (8 * size) ≤ 2 ^ 64 := pow_le_pow_right₀ (by norm_num) (by omega)
    simp only [HasRoom] at room
    exact ⟨room.1, by omega⟩

theorem numberOf_ofInt {signed : Bool} {n : Int} (number : IsNumber signed n) :
    Record.numberOf signed (ofInt n) = n := by
  cases signed with
  | true =>
    rw [numberOf_true]
    exact toSigned_ofInt number.1 number.2
  | false =>
    rw [numberOf_false, toNat_ofInt]
    exact Int.emod_eq_of_lt number.1 number.2

theorem ofInt_numberOf (signed : Bool) (raw : UInt64) : ofInt (Record.numberOf signed raw) = raw := by
  have word := UInt64.toNat_lt raw
  cases signed with
  | true =>
    refine UInt64.toNat_inj.mp (Int.natCast_inj.mp ?_)
    rw [toNat_ofInt, numberOf_true, toSigned, wrap, Int.bmod_def]
    omega
  | false =>
    refine UInt64.toNat_inj.mp (Int.natCast_inj.mp ?_)
    rw [toNat_ofInt, numberOf_false]
    omega

/-- A field holds the pattern of a number of 64 bits exactly when it has room for it. -/
theorem fits_ofInt_iff {size : Nat} (positive : 0 < size) (width : size ≤ 8) {signed : Bool} {n : Int}
    (number : IsNumber signed n) : fits (ofInt n) size signed = true ↔ HasRoom size signed n := by
  rw [fits_iff_isInRange positive width, isInRange_iff_hasRoom, numberOf_ofInt number]

theorem isNumber_numberOf (signed : Bool) (raw : UInt64) : IsNumber signed (Record.numberOf signed raw) := by
  have word := UInt64.toNat_lt raw
  cases signed with
  | true =>
    rw [numberOf_true, IsNumber, toSigned, wrap, Int.bmod_def, minSigned, maxSigned]
    omega
  | false =>
    rw [numberOf_false, IsNumber]
    omega

/-- What is looked for in a number for a field is found exactly when the field has room for it. -/
theorem rawOfInt?_eq_some {size : Nat} (positive : 0 < size) (width : size ≤ 8) {signed : Bool} {n : Int}
    {raw : UInt64} : Record.rawOfInt? size signed n = some raw ↔ HasRoom size signed n ∧ raw = ofInt n := by
  have number : (if signed then isSigned n else decide (0 ≤ n ∧ n < 0x10000000000000000)) = true ↔
      IsNumber signed n := by
    cases signed with
    | true => simp [isSigned, IsNumber]
    | false =>
      simp only [Bool.false_eq_true, if_false, decide_eq_true_eq, IsNumber]
      norm_num
  have both : ((if signed then isSigned n else decide (0 ≤ n ∧ n < 0x10000000000000000)) &&
      fits (ofInt n) size signed) = true ↔ HasRoom size signed n := by
    rw [Bool.and_eq_true, number]
    constructor
    · rintro ⟨within, fit⟩
      exact (fits_ofInt_iff positive width within).mp fit
    · intro room
      have within := room.isNumber positive width
      exact ⟨within, (fits_ofInt_iff positive width within).mpr room⟩
  simp only [Record.rawOfInt?, both, Option.ite_none_right_eq_some, Option.some.injEq]
  exact and_congr_right fun _ => eq_comm

theorem isNarrow_iff {size : Nat} (width : size ≤ 8) {raw : UInt64} :
    isNarrow raw size = true ↔ raw.toNat < 2 ^ (8 * size) := by
  have word := UInt64.toNat_lt raw
  by_cases wide : size = 8
  · subst wide
    simpa [isNarrow] using word
  · have short : ¬8 ≤ size := by omega
    simp [isNarrow, short, Nat.one_shiftLeft]

private theorem signExtend_low {size : Nat} (positive : 0 < size) (narrow : size < 8) (raw : UInt64) :
    signExtend (UInt64.ofNat (raw.toNat % 2 ^ (8 * size))) size = signExtend raw size := by
  have word := UInt64.toNat_lt raw
  have small : raw.toNat % 2 ^ (8 * size) < 2 ^ 64 := by
    have low := Nat.mod_le raw.toNat (2 ^ (8 * size))
    omega
  have same : (UInt64.ofNat (raw.toNat % 2 ^ (8 * size))).toNat = raw.toNat % 2 ^ (8 * size) := by
    rw [UInt64.toNat_ofNat']
    exact Nat.mod_eq_of_lt small
  have bits : ((8 * (size : Int)) % 0x10000000000000000).toNat = 8 * size := by omega
  have below : ¬(8 : Int) ≤ size := by omega
  simp only [signExtend, below, if_false, extendBits, bits, Nat.one_shiftLeft, same, Nat.mod_mod]

theorem signExtend_of_fits {size : Nat} (positive : 0 < size) {raw : UInt64}
    (fit : fits raw size true = true) : signExtend raw size = raw := by
  by_cases wide : 8 ≤ size
  · have far : (8 : Int) ≤ size := by omega
    simp [signExtend, far]
  · simp only [fits, wide, if_false, if_true, Nat.one_shiftLeft, beq_iff_eq] at fit
    rw [← signExtend_low positive (by omega) raw]
    exact fit

/-- The patterns a signed field holds are those of its bytes, sign-extended. -/
theorem fits_iff_exists_signExtend {size : Nat} (positive : 0 < size) (width : size ≤ 8) {raw : UInt64} :
    fits raw size true = true ↔ ∃ k < 2 ^ (8 * size), raw = signExtend (UInt64.ofNat k) size := by
  have word := UInt64.toNat_lt raw
  constructor
  · intro fit
    by_cases wide : size = 8
    · subst wide
      exact ⟨raw.toNat, word, by simp [signExtend]⟩
    · refine ⟨raw.toNat % 2 ^ (8 * size), Nat.mod_lt _ (Nat.two_pow_pos _), ?_⟩
      rw [signExtend_low positive (by omega), signExtend_of_fits positive fit]
  · rintro ⟨k, small, rfl⟩
    have written := fits_ofField positive width true (length_littleEndian size k)
    have bytes : 256 ^ size = 2 ^ (8 * size) := by rw [Nat.pow_mul]
    rwa [ofField, ofLittleEndian_littleEndian, bytes, Nat.mod_eq_of_lt small, if_pos rfl] at written

end TradeWire.Word

import Mathlib.Algebra.GroupWithZero.Nat
import Mathlib.Algebra.Ring.Int.Defs
import Mathlib.Tactic.IntervalCases
import TradeWire.Number.Word

/-! Arithmetic of machine words against whole numbers. -/

set_option autoImplicit false
set_option relaxedAutoImplicit false

namespace TradeWire.Word

theorem wrap_eq_self {n : Int} (low : minSigned ≤ n) (high : n ≤ maxSigned) : wrap n = n := by
  unfold minSigned at low
  unfold maxSigned at high
  exact Int.bmod_eq_of_le (by omega) (by omega)

theorem wrap_natCast {n : Nat} (high : (n : Int) ≤ maxSigned) : wrap n = n := by
  refine wrap_eq_self ?_ high
  unfold minSigned
  omega

theorem minSigned_le_wrap (n : Int) : minSigned ≤ wrap n := by
  have low := Int.le_bmod (x := n) (m := 0x10000000000000000) (by decide)
  unfold minSigned wrap
  omega

theorem wrap_le_maxSigned (n : Int) : wrap n ≤ maxSigned := by
  have high := Int.bmod_le (x := n) (m := 0x10000000000000000) (by decide)
  unfold maxSigned wrap
  omega

@[simp] theorem wrap_zero : wrap 0 = 0 := by simp [wrap]

@[simp] theorem wrap_wrap (n : Int) : wrap (wrap n) = wrap n := Int.bmod_bmod

theorem add_eq {a b : Int} (low : minSigned ≤ a + b) (high : a + b ≤ maxSigned) : add a b = a + b :=
  wrap_eq_self low high

theorem add_natCast {a b : Nat} (high : ((a + b : Nat) : Int) ≤ maxSigned) :
    add a b = ((a + b : Nat) : Int) := by
  have exact_sum : (a : Int) + b = ((a + b : Nat) : Int) := by omega
  rw [add, exact_sum]
  exact wrap_natCast high

theorem add_natCast_of_nonneg {a b : Nat} (left : (a : Int) ≤ maxSigned) (right : (b : Int) ≤ maxSigned)
    (nonnegative : 0 ≤ add a b) : add a b = ((a + b : Nat) : Int) := by
  unfold maxSigned at left right
  simp only [add, wrap, Int.bmod_def] at nonnegative ⊢
  omega

@[simp] theorem wrap_add_wrap (a b : Int) : wrap (a + wrap b) = wrap (a + b) := Int.add_bmod_bmod

@[simp] theorem wrap_wrap_add (a b : Int) : wrap (wrap a + b) = wrap (a + b) := Int.bmod_add_bmod

@[simp] theorem mul_wrap_left (a b : Int) : mul (wrap a) b = wrap (a * b) := Int.bmod_mul_bmod

@[simp] theorem mul_wrap_right (a b : Int) : mul a (wrap b) = wrap (a * b) := Int.mul_bmod_bmod

theorem add_wrap_wrap (a b : Nat) : add (wrap a) (wrap b) = wrap ((a + b : Nat) : Int) := by
  rw [add, wrap_wrap_add, wrap_add_wrap, Int.natCast_add]

theorem add_add (a b c : Int) : add a (add b c) = add (add a b) c := by
  simp only [add, wrap_add_wrap, wrap_wrap_add]
  rw [Int.add_assoc]

theorem ofLittleEndian_littleEndian (size n : Nat) :
    ofLittleEndian (littleEndian size n) = n % 256 ^ size := by
  induction size generalizing n with
  | zero => simp [littleEndian, ofLittleEndian, Nat.mod_one]
  | succ size ih =>
    have low : (UInt8.ofNat (n % 256)).toNat = n % 256 := by simp
    simp only [littleEndian, ofLittleEndian, ih, low]
    rw [Nat.pow_succ, Nat.mul_comm (256 ^ size) 256, Nat.mod_mul]

private theorem littleEndian_mod (size n : Nat) : littleEndian size (n % 256 ^ size) = littleEndian size n := by
  induction size generalizing n with
  | zero => rfl
  | succ size ih =>
    have low : n % 256 ^ (size + 1) % 256 = n % 256 := by
      rw [Nat.pow_succ]
      exact Nat.mod_mul_left_mod n (256 ^ size) 256
    have high : n % 256 ^ (size + 1) / 256 = n / 256 % 256 ^ size := by
      rw [Nat.pow_succ, Nat.mul_comm]
      exact Nat.mod_mul_right_div_self n 256 (256 ^ size)
    simp only [littleEndian, low, high, ih]

theorem ofLittleEndian_lt (data : List UInt8) : ofLittleEndian data < 256 ^ data.length := by
  induction data with
  | nil => simp [ofLittleEndian]
  | cons b rest ih =>
    have small := UInt8.toNat_lt b
    simp only [ofLittleEndian, List.length_cons, Nat.pow_succ]
    omega

private theorem littleEndian_ofLittleEndian (data : List UInt8) :
    littleEndian data.length (ofLittleEndian data) = data := by
  induction data with
  | nil => rfl
  | cons b rest ih =>
    have small := UInt8.toNat_lt b
    have low : (b.toNat + 256 * ofLittleEndian rest) % 256 = b.toNat := by omega
    have high : (b.toNat + 256 * ofLittleEndian rest) / 256 = ofLittleEndian rest := by omega
    simp only [ofLittleEndian, List.length_cons, littleEndian, low, high, ih]
    simp

private theorem bytes_eq_bits (size : Nat) : 256 ^ size = 2 ^ (8 * size) := by
  rw [Nat.pow_mul]

private theorem toNat_ofNat_of_lt {n size : Nat} (width : size ≤ 8) (small : n < 256 ^ size) :
    (UInt64.ofNat n).toNat = n := by
  have word : 256 ^ size ≤ 256 ^ 8 := Nat.pow_le_pow_right (by decide) width
  rw [UInt64.toNat_ofNat']
  exact Nat.mod_eq_of_lt (by omega)

private theorem signExtend_eq_extendBits {size : Nat} (positive : 0 < size) (narrow : size < 8)
    (raw : UInt64) : signExtend raw size = extendBits raw (8 * size) := by
  have bits : (8 * (size : Int)) % 0x10000000000000000 = ((8 * size : Nat) : Int) := by omega
  have nonzero : ¬(((8 * size : Nat) : Int) = 0 ∨ 64 < ((8 * size : Nat) : Int)) := by omega
  have below : ¬(8 : Int) ≤ size := by omega
  simp only [signExtend, below, if_false, bits, nonzero, Int.toNat_natCast]

private theorem extendBits_eq (raw : UInt64) (bits : Nat) :
    extendBits raw bits = if raw.toNat % 2 ^ bits < 2 ^ (bits - 1) then UInt64.ofNat (raw.toNat % 2 ^ bits)
      else UInt64.ofNat (raw.toNat % 2 ^ bits + 2 ^ 64 - 2 ^ bits) := by
  simp [extendBits, Nat.one_shiftLeft]

theorem toNat_signExtend_mod {size : Nat} (positive : 0 < size) (width : size ≤ 8) (raw : UInt64) :
    (signExtend raw size).toNat % 256 ^ size = raw.toNat % 256 ^ size := by
  by_cases wide : size = 8
  · subst wide
    simp [signExtend]
  · rw [signExtend_eq_extendBits positive (by omega), bytes_eq_bits, extendBits_eq]
    have divides : 2 ^ (8 * size) ∣ 2 ^ 64 := Nat.pow_dvd_pow 2 (by omega)
    have small : raw.toNat % 2 ^ (8 * size) < 2 ^ (8 * size) := Nat.mod_lt _ (Nat.two_pow_pos _)
    have bound : 2 ^ (8 * size) ≤ 2 ^ 64 := Nat.le_of_dvd (by decide) divides
    split
    · rw [UInt64.toNat_ofNat', Nat.mod_eq_of_lt (Nat.lt_of_lt_of_le small bound), Nat.mod_mod]
    · rw [UInt64.toNat_ofNat', Nat.mod_mod_of_dvd _ divides, Nat.add_sub_assoc bound,
        Nat.add_mod, Nat.mod_eq_zero_of_dvd (Nat.dvd_sub divides (Nat.dvd_refl _))]
      simp

/-- The pattern an integer field reads from its bytes. -/
def ofField (size : Nat) (signed : Bool) (data : List UInt8) : UInt64 :=
  let plain := UInt64.ofNat (ofLittleEndian data)
  if signed then signExtend plain size else plain

theorem toNat_ofField_mod {size : Nat} (positive : 0 < size) (width : size ≤ 8) (signed : Bool)
    {data : List UInt8} (length : data.length = size) :
    (ofField size signed data).toNat % 256 ^ size = ofLittleEndian data := by
  have small : ofLittleEndian data < 256 ^ size := length ▸ ofLittleEndian_lt data
  have plain := toNat_ofNat_of_lt width small
  cases signed with
  | true =>
    simp only [ofField, if_true]
    rw [toNat_signExtend_mod positive width, plain, Nat.mod_eq_of_lt small]
  | false =>
    simp only [ofField, Bool.false_eq_true, if_false]
    rw [plain, Nat.mod_eq_of_lt small]

theorem fits_ofField {size : Nat} (positive : 0 < size) (width : size ≤ 8) (signed : Bool)
    {data : List UInt8} (length : data.length = size) :
    fits (ofField size signed data) size signed = true := by
  have low := toNat_ofField_mod positive width signed length
  have small : ofLittleEndian data < 256 ^ size := length ▸ ofLittleEndian_lt data
  rw [bytes_eq_bits] at low
  simp only [fits, Nat.one_shiftLeft]
  split
  · rfl
  · cases signed with
    | true =>
      rw [if_pos rfl, low]
      simp [ofField]
    | false =>
      have plain := toNat_ofNat_of_lt width small
      rw [bytes_eq_bits] at small
      simp only [ofField, Bool.false_eq_true, if_false, plain, decide_eq_true_eq]
      exact small

theorem littleEndian_ofField {size : Nat} (positive : 0 < size) (width : size ≤ 8) (signed : Bool)
    {data : List UInt8} (length : data.length = size) :
    littleEndian size (ofField size signed data).toNat = data := by
  rw [← littleEndian_mod, toNat_ofField_mod positive width signed length, ← length]
  exact littleEndian_ofLittleEndian data

/-- Reading what a field has written gives back every pattern that fits. -/
theorem ofField_littleEndian {size : Nat} (width : size ≤ 8) {signed : Bool} {raw : UInt64}
    (fit : fits raw size signed = true) : ofField size signed (littleEndian size raw.toNat) = raw := by
  have word := UInt64.toNat_lt raw
  simp only [ofField, ofLittleEndian_littleEndian, bytes_eq_bits]
  simp only [fits, Nat.one_shiftLeft] at fit
  split at fit
  · have wide : size = 8 := by omega
    subst wide
    have whole : raw.toNat % 2 ^ (8 * 8) = raw.toNat := Nat.mod_eq_of_lt word
    rw [whole, UInt64.ofNat_toNat]
    simp [signExtend]
  · cases signed with
    | true => simpa using fit
    | false =>
      have narrow : raw.toNat < 2 ^ (8 * size) := by simpa using fit
      rw [Nat.mod_eq_of_lt narrow, UInt64.ofNat_toNat]
      simp

/-- The number that a pattern stands for has `size` bytes, a signed one in two's complement. -/
def IsInRange (raw : UInt64) (size : Nat) : Bool → Prop
  | true => -2 ^ (8 * size - 1) ≤ toSigned raw ∧ toSigned raw < 2 ^ (8 * size - 1)
  | false => raw.toNat < 2 ^ (8 * size)

private theorem toSigned_eq (raw : UInt64) :
    toSigned raw = if raw.toNat < 0x8000000000000000 then (raw.toNat : Int)
      else raw.toNat - 0x10000000000000000 := by
  have word := UInt64.toNat_lt raw
  simp only [toSigned, wrap, Int.bmod_def]
  omega

private theorem signExtend_low_eq_iff {size : Nat} (positive : 0 < size) (narrow : size < 8) (raw : UInt64) :
    signExtend (UInt64.ofNat (raw.toNat % 2 ^ (8 * size))) size = raw ↔
      raw.toNat < 2 ^ (8 * size - 1) ∨ 2 ^ 64 - 2 ^ (8 * size - 1) ≤ raw.toNat := by
  have word := UInt64.toNat_lt raw
  rw [signExtend_eq_extendBits positive narrow, extendBits_eq, ← UInt64.toNat_inj]
  interval_cases size <;>
  · simp only [UInt64.toNat_ofNat', apply_ite UInt64.toNat]
    norm_num at word ⊢
    split <;> omega

private theorem toSigned_ofNat_of_lt {n : Nat} (small : n < 2 ^ 64) :
    toSigned (UInt64.ofNat n) = if n < 2 ^ 63 then (n : Int) else n - 2 ^ 64 := by
  have word : (UInt64.ofNat n).toNat = n := by
    rw [UInt64.toNat_ofNat']
    exact Nat.mod_eq_of_lt small
  rw [toSigned_eq, word]
  norm_num

private theorem toSigned_widened {bits n : Nat} (positive : 0 < bits) (narrow : bits ≤ 56)
    (low : n < 2 ^ bits) :
    (if n < 2 ^ (bits - 1) then toSigned (UInt64.ofNat n)
      else toSigned (UInt64.ofNat (n + 2 ^ 64 - 2 ^ bits))) = (n : Int).bmod (2 ^ bits) := by
  have word : 2 ^ bits ≤ 2 ^ 56 := Nat.pow_le_pow_right (by decide) narrow
  have half : 2 ^ bits = 2 * 2 ^ (bits - 1) := by
    rw [← Nat.pow_succ', Nat.succ_eq_add_one, Nat.sub_add_cancel positive]
  generalize 2 ^ (bits - 1) = h at half ⊢
  generalize 2 ^ bits = w at low word half ⊢
  rw [toSigned_ofNat_of_lt (by omega), toSigned_ofNat_of_lt (by omega), Int.bmod_def,
    Int.emod_eq_of_lt (by omega) (by omega)]
  split <;> split <;> split <;> omega

/-- Widening keeps of a number what its low bytes stand for in two's complement. -/
theorem toSigned_signExtend {size n : Nat} (positive : 0 < size) (width : size ≤ 8) (small : n < 2 ^ 64) :
    toSigned (signExtend (UInt64.ofNat n) size) = (n : Int).bmod (2 ^ (8 * size)) := by
  have whole : (UInt64.ofNat n).toNat = n := by
    rw [UInt64.toNat_ofNat']
    exact Nat.mod_eq_of_lt small
  by_cases wide : size = 8
  · subst wide
    have same : signExtend (UInt64.ofNat n) (8 : Nat) = UInt64.ofNat n := rfl
    rw [same, toSigned, whole]
    rfl
  · have low : n % 2 ^ (8 * size) < 2 ^ (8 * size) := Nat.mod_lt _ (Nat.two_pow_pos _)
    have widened := toSigned_widened (by omega) (by omega) low
    rw [signExtend_eq_extendBits positive (by omega), extendBits_eq, whole, apply_ite toSigned, widened,
      Int.natCast_mod, Int.emod_bmod]

theorem fits_iff_isInRange {size : Nat} (positive : 0 < size) (width : size ≤ 8) (raw : UInt64)
    (signed : Bool) : fits raw size signed = true ↔ IsInRange raw size signed := by
  have word := UInt64.toNat_lt raw
  cases signed with
  | false =>
    simp only [fits, IsInRange, Nat.one_shiftLeft]
    split
    · have wide : size = 8 := by omega
      simpa [wide] using word
    · simp
  | true =>
    simp only [IsInRange, toSigned_eq]
    by_cases wide : size = 8
    · subst wide
      simp only [fits, Nat.le_refl, if_true, true_iff]
      norm_num
      split <;> omega
    · have narrow : size < 8 := by omega
      simp only [fits, Nat.not_le.mpr narrow, if_false, Nat.one_shiftLeft, if_true, beq_iff_eq]
      rw [signExtend_low_eq_iff positive narrow]
      interval_cases size <;>
      · norm_num at word ⊢
        split <;> omega

end TradeWire.Word

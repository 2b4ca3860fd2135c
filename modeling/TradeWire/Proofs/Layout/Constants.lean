import TradeWire.Proofs.Layout.Soundness
import TradeWire.Proofs.Number.Literals

/-! What integer fields hold for the literals of their type. -/

set_option autoImplicit false
set_option relaxedAutoImplicit false

namespace TradeWire

open Schema

namespace Word

theorem toSigned_ofInt {n : Int} (low : minSigned ≤ n) (high : n ≤ maxSigned) : toSigned (ofInt n) = n := by
  unfold minSigned at low
  unfold maxSigned at high
  have word : (n % 0x10000000000000000).toNat < 2 ^ 64 := by omega
  have whole : (ofInt n).toNat = (n % 0x10000000000000000).toNat := by
    rw [ofInt, UInt64.toNat_ofNat']
    exact Nat.mod_eq_of_lt word
  rw [toSigned, wrap, whole, Int.bmod_def]
  omega

theorem toNat_ofInt (n : Int) : ((ofInt n).toNat : Int) = n % 2 ^ 64 := by
  have word : (n % 0x10000000000000000).toNat < 2 ^ 64 := by omega
  rw [ofInt, UInt64.toNat_ofNat', Nat.mod_eq_of_lt word]
  omega

/-- What a field of `size` bytes holds for a constant: unsigned, the number modulo 2^64; signed, a negative
number as it is, and of others what their low bytes stand for in two's complement. -/
def Represents (size : Nat) : Bool → Int → UInt64 → Prop
  | true, n, raw => toSigned raw = if n < 0 then n else n.bmod (2 ^ (8 * size))
  | false, n, raw => (raw.toNat : Int) = n % 2 ^ 64

/-- A field of `size` bytes can be packed with what it holds for a constant. -/
def CanCarry (size : Nat) : Bool → Int → Prop
  | true, n => -2 ^ (8 * size - 1) ≤ n
  | false, n => size = 8 ∨ 0 ≤ n ∧ n < 2 ^ (8 * size)

instance (size : Nat) (signed : Bool) (n : Int) : Decidable (CanCarry size signed n) :=
  match signed with
  | true => inferInstanceAs (Decidable (-2 ^ (8 * size - 1) ≤ n))
  | false => inferInstanceAs (Decidable (size = 8 ∨ 0 ≤ n ∧ n < 2 ^ (8 * size)))

private theorem fits_iff_canCarry {size : Nat} (positive : 0 < size) (width : size ≤ 8) {signed : Bool} {n : Int}
    {raw : UInt64} (low : minSigned ≤ n) (high : n < 2 ^ 64) (represents : Represents size signed n raw) :
    fits raw size signed = true ↔ CanCarry size signed n := by
  rw [fits_iff_isInRange positive width]
  unfold minSigned at low
  have half : 2 ^ (8 * size) = 2 * 2 ^ (8 * size - 1) := by
    rw [← Nat.pow_succ']
    congr 1
    omega
  have some : 0 < 2 ^ (8 * size - 1) := Nat.two_pow_pos _
  cases signed with
  | true =>
    simp only [Represents] at represents
    simp only [IsInRange, CanCarry, represents]
    by_cases negative : n < 0
    · rw [if_pos negative]
      have above : (0 : Int) < 2 ^ (8 * size - 1) := by exact_mod_cast some
      constructor
      · exact fun range => range.1
      · exact fun fine => ⟨fine, by omega⟩
    · rw [if_neg negative]
      have least := Int.le_bmod (x := n) (m := 2 ^ (8 * size)) (Nat.two_pow_pos _)
      have most := Int.bmod_le (x := n) (m := 2 ^ (8 * size)) (Nat.two_pow_pos _)
      rw [half] at least most ⊢
      push_cast at least most ⊢
      generalize (2 : Int) ^ (8 * size - 1) = h at *
      constructor
      · intro _
        omega
      · intro _
        omega
  | false =>
    simp only [Represents] at represents
    simp only [IsInRange, CanCarry]
    have word := UInt64.toNat_lt raw
    by_cases wide : size = 8
    · subst wide
      simpa using word
    · have narrow : 2 ^ (8 * size) ≤ 2 ^ 56 := Nat.pow_le_pow_right (by decide) (by omega)
      have same : ((2 ^ (8 * size) : Nat) : Int) = 2 ^ (8 * size) := by push_cast; rfl
      rw [← same]
      generalize 2 ^ (8 * size) = w at narrow ⊢
      constructor
      · intro fit
        exact .inr (by omega)
      · rintro (eight | ⟨positive, small⟩)
        · exact absurd eight wide
        · omega

/-- A field holds for a constant what it should, and is packed with it when it can carry it. -/
structure IsConstant (size : Nat) (signed : Bool) (n : Int) (raw : UInt64) : Prop where
  represents : Represents size signed n raw
  fits_iff : fits raw size signed = true ↔ CanCarry size signed n

end Word

namespace Schema.DataType

/-- The number that a value of a type denotes: the code of a character, or an integer. -/
def Denotes (t : DataType) (text : String) (n : Int) : Prop :=
  if t.isChar then ∃ b, Text.encodeUtf8 text = [b] ∧ n = b.toNat else n = Literal.value (Text.trim text)

private theorem isConstant_of_rawLiteral? {literal : String} {size : Nat} (positive : 0 < size) (width : size ≤ 8)
    {signed : Bool} {raw : UInt64} (read : rawLiteral? literal size signed = some raw) :
    Word.IsConstant size signed (Literal.value (Text.trim literal)) raw := by
  -- it is enough that the field holds what it should for a number of the machine
  have enough : ∀ n : Int, Literal.value (Text.trim literal) = n → Word.minSigned ≤ n → n < 2 ^ 64 →
      Word.Represents size signed n raw →
        Word.IsConstant size signed (Literal.value (Text.trim literal)) raw := by
    rintro n rfl low high represents
    exact ⟨represents, Word.fits_iff_canCarry positive width low high represents⟩
  unfold rawLiteral? at read
  simp only at read
  split at read
  · rename_i minus
    split at read
    · rename_i n known
      cases read
      obtain ⟨value, low, high⟩ := Literal.value_of_integer known
      have negated : n ≤ 0 := by
        obtain ⟨rest, signs⟩ : ∃ rest, (Text.trim literal).toList = '-' :: rest := by
          cases chars : (Text.trim literal).toList with
          | nil => simp [chars] at minus
          | cons c rest => exact ⟨rest, by simp_all⟩
        rw [← value]
        simp only [Literal.value, signs, Literal.splitSign, if_true]
        omega
      unfold Word.maxSigned at high
      refine enough n value low (by omega) ?_
      cases signed with
      | true =>
        have same := Word.toSigned_ofInt low (by unfold Word.maxSigned; omega)
        simp only [Word.Represents, same]
        by_cases negative : n < 0
        · rw [if_pos negative]
        · obtain rfl : n = 0 := by omega
          simp
      | false => exact Word.toNat_ofInt n
    · cases read
  · split at read
    · rename_i n known
      cases read
      obtain ⟨value, small⟩ := Literal.value_of_unsigned known
      refine enough n value (by unfold Word.minSigned; omega) (by exact_mod_cast small) ?_
      cases signed with
      | true =>
        have natural : ¬(n : Int) < 0 := by omega
        simp only [Word.Represents, if_true, if_neg natural]
        exact Word.toSigned_signExtend positive width small
      | false =>
        simp only [Word.Represents, Bool.false_eq_true, if_false, UInt64.toNat_ofNat']
        omega
    · cases read

variable {t : DataType}

theorem isConstant_of_rawNoValue (positive : 0 < t.size) (width : t.size ≤ 8) {raw : UInt64}
    (read : t.rawNoValue = .ok (some raw)) :
    Word.IsConstant t.size (t.isSigned && !t.isChar) (Literal.value (Text.trim t.noValue)) raw := by
  unfold rawNoValue at read
  simp only at read
  split at read
  · cases read
  · split at read
    · rename_i known
      cases read
      have constant := isConstant_of_rawLiteral? positive width known
      rwa [Text.trim_trim] at constant
    · cases read

theorem isConstant_of_rawValue (positive : 0 < t.size) (width : t.size ≤ 8) {v : ValidValue} {raw : UInt64}
    (read : t.rawValue v = .ok raw) :
    ∃ n, t.Denotes v.value n ∧ Word.IsConstant t.size (t.isSigned && !t.isChar) n raw := by
  unfold rawValue at read
  unfold Denotes
  split at read
  · rename_i char
    split at read
    · rename_i b single
      cases read
      have one : t.size = 1 := by
        simp only [isChar, Bool.and_eq_true, beq_iff_eq] at char
        exact char.1.2
      have small := UInt8.toNat_lt b
      have represents : Word.Represents t.size false (b.toNat : Int) (UInt64.ofNat b.toNat) := by
        simp only [Word.Represents, UInt64.toNat_ofNat']
        omega
      simp only [char, if_true, Bool.not_true, Bool.and_false]
      exact ⟨b.toNat, ⟨b, single, rfl⟩, represents,
        Word.fits_iff_canCarry positive width (by unfold Word.minSigned; omega) (by omega) represents⟩
    · cases read
  · rename_i plain
    split at read
    · rename_i known
      cases read
      have constant := isConstant_of_rawLiteral? positive width known
      exact ⟨Literal.value (Text.trim v.value), by simp [plain], by simpa [plain] using constant⟩
    · cases read

theorem mem_symbols {noValue : Option UInt64} {symbols : Symbols}
    (read : t.symbols noValue = .ok symbols) {symbol : Symbol} (member : symbol ∈ symbols.values) :
    (∃ v ∈ t.values, symbol.name = v.name ∧ t.rawValue v = .ok symbol.value) ∨
      symbol.name = Symbols.noValueName ∧ noValue = some symbol.value := by
  have declared : ∀ (values : List ValidValue) (more : List Symbol),
      t.declaredSymbols values = .ok more → ∀ symbol ∈ more,
        ∃ v ∈ values, symbol.name = v.name ∧ t.rawValue v = .ok symbol.value := by
    intro values
    induction values with
    | nil =>
      intro more done symbol member
      cases done
      cases member
    | cons v rest ih =>
      intro more done symbol member
      unfold declaredSymbols at done
      split at done
      · cases done
      · rename_i raw here
        split at done
        · cases done
        · rename_i others later
          cases done
          rcases List.mem_cons.mp member with rfl | other
          · exact ⟨v, by simp, rfl, here⟩
          · obtain ⟨w, listed, named⟩ := ih others later symbol other
            exact ⟨w, by simp [listed], named⟩
  unfold DataType.symbols at read
  split at read
  · cases read
  · rename_i more done
    split at read
    · cases read
      exact .inl (declared _ _ done symbol member)
    · split at read
      · cases read
        exact .inl (declared _ _ done symbol member)
      · cases read
        rcases List.mem_append.mp member with known | last
        · exact .inl (declared _ _ done symbol known)
        · obtain rfl := List.mem_singleton.mp last
          exact .inr ⟨rfl, rfl⟩

end Schema.DataType

end TradeWire

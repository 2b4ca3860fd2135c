/-! Machine words: signed sizes that wrap, and unsigned 64-bit patterns of field values. -/

set_option autoImplicit false
set_option relaxedAutoImplicit false

namespace TradeWire.Word

/-- The signed 64-bit number congruent to `n`. -/
def wrap (n : Int) : Int := Int.bmod n 0x10000000000000000

def add (a b : Int) : Int := wrap (a + b)

def mul (a b : Int) : Int := wrap (a * b)

def maxSigned : Int := 0x7fffffffffffffff

def minSigned : Int := -0x8000000000000000

def isSigned (n : Int) : Bool := minSigned ≤ n && n ≤ maxSigned

def toSigned (raw : UInt64) : Int := wrap raw.toNat

def ofInt (n : Int) : UInt64 := UInt64.ofNat (n % 0x10000000000000000).toNat

/-- The low `bits` bits of a pattern, with the highest of them repeated up to 64 bits. -/
def extendBits (raw : UInt64) (bits : Nat) : UInt64 :=
  let low := raw.toNat % (1 <<< bits)
  if low < 1 <<< (bits - 1) then UInt64.ofNat low
  else UInt64.ofNat (low + 0x10000000000000000 - (1 <<< bits))

/-- The low `size` bytes of a pattern widened to a signed 64-bit pattern. Eight bytes and more are
the pattern itself; below one byte nothing is left of it. -/
def signExtend (raw : UInt64) (size : Int) : UInt64 :=
  if 8 ≤ size then raw
  else
    let bits := (8 * size) % 0x10000000000000000
    if bits = 0 ∨ 64 < bits then 0 else extendBits raw bits.toNat

def isNarrow (raw : UInt64) (size : Nat) : Bool := 8 ≤ size || raw.toNat < 1 <<< (8 * size)

/-- Whether a field of `size` bytes can hold the pattern: an unsigned field holds what uses only its
bytes, a signed one what sign extension of its bytes gives back. -/
def fits (raw : UInt64) (size : Nat) (signed : Bool) : Bool :=
  if 8 ≤ size then true
  else if signed then signExtend (UInt64.ofNat (raw.toNat % (1 <<< (8 * size)))) size == raw
  else raw.toNat < 1 <<< (8 * size)

/-- The low `size` bytes of a number, the lowest first. -/
def littleEndian : Nat → Nat → List UInt8
  | 0, _ => []
  | size + 1, n => UInt8.ofNat (n % 256) :: littleEndian size (n / 256)

/-- The number whose bytes these are, the lowest first. -/
def ofLittleEndian : List UInt8 → Nat
  | [] => 0
  | b :: rest => b.toNat + 256 * ofLittleEndian rest

theorem length_littleEndian (size n : Nat) : (littleEndian size n).length = size := by
  induction size generalizing n with
  | zero => rfl
  | succ size ih => simp [littleEndian, ih]

end TradeWire.Word

import Mathlib.Algebra.Group.Nat.Defs
import Mathlib.Data.List.Basic

namespace LittleEndian

-- Words of 16 and 32 bits and their little-endian bytes, least byte first.
def word16 (lo hi : UInt8) : UInt16 := lo.toUInt16 ||| (hi.toUInt16 <<< 8)

def bytes16 (word : UInt16) : List UInt8 := [word.toUInt8,(word >>> 8).toUInt8]

def word32 (b0 b1 b2 b3 : UInt8) : UInt32 :=
  b0.toUInt32 ||| (b1.toUInt32 <<< 8) ||| (b2.toUInt32 <<< 16) ||| (b3.toUInt32 <<< 24)

def bytes32 (word : UInt32) : List UInt8 :=
  [word.toUInt8,(word >>> 8).toUInt8,(word >>> 16).toUInt8,(word >>> 24).toUInt8]

@[simp] theorem bytes16_length (word : UInt16) : (bytes16 word).length = 2 := rfl
@[simp] theorem bytes32_length (word : UInt32) : (bytes32 word).length = 4 := rfl

-- The or of disjoint bit ranges is a sum, which is what omega can read.
theorem or_shift_eq_add {low : Nat} (high width : Nat) (fits : low < 2^width) :
    low ||| (high <<< width) = low + high*2^width := by
  rw [Nat.or_comm,← Nat.shiftLeft_add_eq_or_of_lt fits,Nat.shiftLeft_eq,Nat.add_comm]

theorem word16_toNat (lo hi : UInt8) : (word16 lo hi).toNat = lo.toNat + 256*hi.toNat := by
  have low := lo.toNat_lt
  have high := hi.toNat_lt
  have shifted : hi.toNat <<< 8 % 65536 = hi.toNat <<< 8 := by
    rw [Nat.shiftLeft_eq]; omega
  simp only [word16,UInt16.toNat_or,UInt16.toNat_shiftLeft,UInt8.toNat_toUInt16,UInt16.reduceToNat,
    Nat.reduceMod,Nat.reducePow]
  rw [shifted,or_shift_eq_add hi.toNat 8 low]
  omega

theorem word16_bytes (word : UInt16) : word16 word.toUInt8 (word >>> 8).toUInt8 = word := by
  have bound := word.toNat_lt
  apply UInt16.toNat_inj.mp
  rw [word16_toNat]
  simp [Nat.shiftRight_eq_div_pow]
  omega

theorem word32_toNat (b0 b1 b2 b3 : UInt8) : (word32 b0 b1 b2 b3).toNat =
    b0.toNat + 256*b1.toNat + 65536*b2.toNat + 16777216*b3.toNat := by
  have h0 := b0.toNat_lt
  have h1 := b1.toNat_lt
  have h2 := b2.toNat_lt
  have h3 := b3.toNat_lt
  have s1 : b1.toNat <<< 8 % 4294967296 = b1.toNat <<< 8 := by rw [Nat.shiftLeft_eq]; omega
  have s2 : b2.toNat <<< 16 % 4294967296 = b2.toNat <<< 16 := by rw [Nat.shiftLeft_eq]; omega
  have s3 : b3.toNat <<< 24 % 4294967296 = b3.toNat <<< 24 := by rw [Nat.shiftLeft_eq]; omega
  simp only [word32,UInt32.toNat_or,UInt32.toNat_shiftLeft,UInt8.toNat_toUInt32,UInt32.reduceToNat,
    Nat.reduceMod,Nat.reducePow]
  rw [s1,s2,s3,or_shift_eq_add b1.toNat 8 h0,or_shift_eq_add b2.toNat 16 (by omega),
    or_shift_eq_add b3.toNat 24 (by omega)]
  omega

theorem word32_bytes (word : UInt32) : word32 word.toUInt8 (word >>> 8).toUInt8
    (word >>> 16).toUInt8 (word >>> 24).toUInt8 = word := by
  have bound := word.toNat_lt
  apply UInt32.toNat_inj.mp
  rw [word32_toNat]
  simp [Nat.shiftRight_eq_div_pow]
  omega

end LittleEndian

import Mathlib.Data.Int.Bitwise

/-!
Machine words as numbers. A word stands for a number in two's complement, and
each operation on words is an operation on the numbers, brought back into range.

Sums, products and quotients have this form in the library. Here are the bitwise
operations, which are those on the infinite sequences of bits of the numbers, and
the shifts, which multiply or divide by a power of two.
-/

namespace LintEngine.Word

variable {w : Nat}

def wrap (bits : Nat) (n : Int) : Int := n.bmod (2 ^ bits)

/-! ### Bitwise operations -/

theorem toInt_eq_cond (x : BitVec w) :
    x.toInt = bif x.msb then Int.negSucc (~~~x).toNat else Int.ofNat x.toNat := by
  rw [BitVec.toInt_eq_msb_cond]
  cases x.msb with
  | false => rfl
  | true =>
      have hlt : x.toNat < 2 ^ w := x.isLt
      have hsum : (~~~x).toNat + x.toNat + 1 = 2 ^ w := by
        rw [BitVec.toNat_not]
        omega
      have hsum' : ((~~~x).toNat : Int) + x.toNat + 1 = 2 ^ w := by exact_mod_cast hsum
      simp only [if_true, cond_true, Int.negSucc_eq]
      omega

theorem toNat_and_eq_ldiff (x y : BitVec w) : (x &&& y).toNat = x.toNat.ldiff (~~~y).toNat := by
  apply Nat.eq_of_testBit_eq
  intro i
  simp only [BitVec.toNat_and, Nat.testBit_and, Nat.testBit_ldiff, BitVec.testBit_toNat,
    BitVec.getLsbD_not]
  by_cases hi : i < w
  · simp [hi]
  · simp [hi, BitVec.getLsbD_of_ge x i (Nat.le_of_not_lt hi)]

theorem toInt_and (x y : BitVec w) : (x &&& y).toInt = Int.land x.toInt y.toInt := by
  rw [toInt_eq_cond (x &&& y), toInt_eq_cond x, toInt_eq_cond y, BitVec.msb_and]
  cases x.msb <;> cases y.msb
  · exact congrArg Int.ofNat (BitVec.toNat_and ..)
  · exact congrArg Int.ofNat (toNat_and_eq_ldiff x y)
  · rw [BitVec.and_comm]
    exact congrArg Int.ofNat (toNat_and_eq_ldiff y x)
  · rw [BitVec.not_and]
    exact congrArg Int.negSucc (BitVec.toNat_or ..)

theorem toInt_or (x y : BitVec w) : (x ||| y).toInt = Int.lor x.toInt y.toInt := by
  rw [toInt_eq_cond (x ||| y), toInt_eq_cond x, toInt_eq_cond y, BitVec.msb_or]
  cases x.msb <;> cases y.msb
  · exact congrArg Int.ofNat (BitVec.toNat_or ..)
  · have h := toNat_and_eq_ldiff (~~~y) (~~~x)
    rw [BitVec.not_not, ← BitVec.not_or, BitVec.or_comm] at h
    exact congrArg Int.negSucc h
  · have h := toNat_and_eq_ldiff (~~~x) (~~~y)
    rw [BitVec.not_not, ← BitVec.not_or] at h
    exact congrArg Int.negSucc h
  · rw [BitVec.not_or]
    exact congrArg Int.negSucc (BitVec.toNat_and ..)

theorem toInt_xor (x y : BitVec w) : (x ^^^ y).toInt = Int.xor x.toInt y.toInt := by
  rw [toInt_eq_cond (x ^^^ y), toInt_eq_cond x, toInt_eq_cond y, BitVec.msb_xor]
  cases x.msb <;> cases y.msb
  · exact congrArg Int.ofNat (BitVec.toNat_xor ..)
  · rw [BitVec.not_xor_right]
    exact congrArg Int.negSucc (BitVec.toNat_xor ..)
  · rw [BitVec.not_xor_left]
    exact congrArg Int.negSucc (BitVec.toNat_xor ..)
  · have h : x ^^^ y = ~~~x ^^^ ~~~y := by
      rw [← BitVec.not_xor_left, ← BitVec.not_xor_right, BitVec.not_not]
    rw [h]
    exact congrArg Int.ofNat (BitVec.toNat_xor ..)

/-! ### Shifts -/

theorem toInt_shiftLeft (x : BitVec w) (k : Nat) :
    (x <<< k).toInt = wrap w (x.toInt * 2 ^ k) := by
  rw [BitVec.toInt_shiftLeft, BitVec.toInt_eq_toNat_bmod, wrap, Int.bmod_mul_bmod,
    Nat.shiftLeft_eq]
  push_cast
  rfl

theorem toInt_sshiftRight (x : BitVec w) (k : Nat) :
    (x.sshiftRight k).toInt = x.toInt / 2 ^ k := by
  rw [BitVec.toInt_sshiftRight, Int.shiftRight_eq_div_pow]
  push_cast
  rfl

theorem toNat_eq_emod (x : BitVec w) : (x.toNat : Int) = x.toInt % 2 ^ w := by
  have hlt : (x.toNat : Int) < 2 ^ w := by exact_mod_cast x.isLt
  have h : x.toInt % (2 ^ w : Nat) = x.toNat % (2 ^ w : Nat) := by
    rw [BitVec.toInt_eq_toNat_bmod, Int.bmod_emod]
  push_cast at h
  rw [h, Int.emod_eq_of_lt (Int.natCast_nonneg _) hlt]

theorem toInt_ushiftRight (x : BitVec w) (k : Nat) :
    (x >>> k).toInt = wrap w (x.toInt % 2 ^ w / 2 ^ k) := by
  rw [BitVec.toInt_eq_toNat_bmod, BitVec.toNat_ushiftRight, Nat.shiftRight_eq_div_pow,
    ← toNat_eq_emod]
  push_cast
  rfl

/-- A signed count is reduced to the remainder that is not negative. -/
theorem toNat_smod (x n : BitVec w) (hn : 0 < n.toInt) :
    (x.smod n).toNat = (x.toInt % n.toInt).toNat := by
  have hmod : (x.smod n).toInt = x.toInt % n.toInt := by
    rw [BitVec.toInt_smod, Int.fmod_eq_emod_of_nonneg _ (Int.le_of_lt hn)]
  have hnonneg : 0 ≤ x.toInt % n.toInt := Int.emod_nonneg _ (Int.ne_of_gt hn)
  rw [toInt_eq_cond] at hmod
  cases hmsb : (x.smod n).msb with
  | true =>
      rw [hmsb, cond_true] at hmod
      omega
  | false =>
      rw [hmsb, cond_false] at hmod
      rw [← hmod]
      rfl

/-- An unsigned count is reduced to the same remainder, since the modulus divides
the number of words. -/
theorem toNat_umod (x n : BitVec w) (hn : (n.toNat : Int) ∣ 2 ^ w) :
    (x % n).toNat = (x.toInt % n.toNat).toNat := by
  have h : (x.toNat : Int) % n.toNat = x.toInt % n.toNat := by
    rw [toNat_eq_emod, Int.emod_emod_of_dvd _ hn]
  rw [← h, BitVec.toNat_umod]
  rfl

/-- Reducing a count to a word first does not change its remainder. -/
theorem bmod_emod_of_dvd (n : Int) {m k : Nat} (h : k ∣ m) : n.bmod m % k = n % k := by
  rw [← Int.emod_emod_of_dvd (n.bmod m) (Int.natCast_dvd_natCast.mpr h), Int.bmod_emod,
    Int.emod_emod_of_dvd n (Int.natCast_dvd_natCast.mpr h)]

section

variable (x count : Int64) (y : Int32)

theorem int32_count : (count.toInt32.toBitVec.smod 32).toNat = (count.toInt % 32).toNat := by
  rw [toNat_smod _ _ (by decide), Int32.toInt_toBitVec, Int64.toInt_toInt32]
  exact congrArg Int.toNat (bmod_emod_of_dvd _ (by decide : 32 ∣ 2 ^ 32))

theorem int64_count : (count.toBitVec.smod 64).toNat = (count.toInt % 64).toNat := by
  rw [toNat_smod _ _ (by decide), Int64.toInt_toBitVec]
  rfl

theorem uint32_count : (count.toInt32.toBitVec % 32).toNat = (count.toInt % 32).toNat := by
  rw [toNat_umod _ _ (by decide), Int32.toInt_toBitVec, Int64.toInt_toInt32]
  exact congrArg Int.toNat (bmod_emod_of_dvd _ (by decide : 32 ∣ 2 ^ 32))

theorem uint64_count : (count.toBitVec % 64).toNat = (count.toInt % 64).toNat := by
  rw [toNat_umod _ _ (by decide), Int64.toInt_toBitVec]
  rfl

theorem int32_shiftLeft :
    (y <<< count.toInt32).toInt = wrap 32 (y.toInt * 2 ^ (count.toInt % 32).toNat) := by
  rw [← Int32.toInt_toBitVec, Int32.toBitVec_shiftLeft, BitVec.shiftLeft_eq', int32_count,
    toInt_shiftLeft, Int32.toInt_toBitVec]

theorem int32_shiftRight :
    (y >>> count.toInt32).toInt = y.toInt / 2 ^ (count.toInt % 32).toNat := by
  rw [← Int32.toInt_toBitVec, Int32.toBitVec_shiftRight, BitVec.sshiftRight', int32_count,
    toInt_sshiftRight, Int32.toInt_toBitVec]

theorem int32_shiftRightLogical :
    (y.toUInt32 >>> count.toInt32.toUInt32).toInt32.toInt =
      wrap 32 (y.toInt % 2 ^ 32 / 2 ^ (count.toInt % 32).toNat) := by
  change (y.toUInt32 >>> count.toInt32.toUInt32).toBitVec.toInt = _
  rw [UInt32.toBitVec_shiftRight, Int32.toBitVec_toUInt32, Int32.toBitVec_toUInt32,
    BitVec.ushiftRight_eq', uint32_count, toInt_ushiftRight, Int32.toInt_toBitVec]

theorem int64_shiftLeft :
    (x <<< count).toInt = wrap 64 (x.toInt * 2 ^ (count.toInt % 64).toNat) := by
  rw [← Int64.toInt_toBitVec, Int64.toBitVec_shiftLeft, BitVec.shiftLeft_eq', int64_count,
    toInt_shiftLeft, Int64.toInt_toBitVec]

theorem int64_shiftRight : (x >>> count).toInt = x.toInt / 2 ^ (count.toInt % 64).toNat := by
  rw [← Int64.toInt_toBitVec, Int64.toBitVec_shiftRight, BitVec.sshiftRight', int64_count,
    toInt_sshiftRight, Int64.toInt_toBitVec]

theorem int64_shiftRightLogical :
    (x.toUInt64 >>> count.toUInt64).toInt64.toInt =
      wrap 64 (x.toInt % 2 ^ 64 / 2 ^ (count.toInt % 64).toNat) := by
  change (x.toUInt64 >>> count.toUInt64).toBitVec.toInt = _
  rw [UInt64.toBitVec_shiftRight, Int64.toBitVec_toUInt64, Int64.toBitVec_toUInt64,
    BitVec.ushiftRight_eq', uint64_count, toInt_ushiftRight, Int64.toInt_toBitVec]

end

end LintEngine.Word

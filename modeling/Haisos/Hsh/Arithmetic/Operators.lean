import Haisos.Hsh.Arithmetic.Expression
import Mathlib.Tactic

/-!
# The operations on words and on integers

Every operation of the evaluator on 64-bit words is the reference operation on
the integers the words stand for.
-/

namespace Haisos.Hsh.Arithmetic

theorem toInt_add (a b : IntMax) : (add a b).toInt = wrap (a.toInt + b.toInt) :=
  BitVec.toInt_add a b

theorem toInt_sub (a b : IntMax) : (sub a b).toInt = wrap (a.toInt - b.toInt) :=
  BitVec.toInt_sub

theorem toInt_mul (a b : IntMax) : (mul a b).toInt = wrap (a.toInt * b.toInt) :=
  BitVec.toInt_mul a b

theorem toInt_neg (a : IntMax) : (neg a).toInt = wrap (-a.toInt) := by
  rw [neg, BitVec.toInt_sub]
  simp [wrap]

theorem toInt_bitNot (a : IntMax) : (bitNot a).toInt = -a.toInt - 1 := by
  have hlt := a.isLt
  simp only [bitNot, BitVec.toInt_eq_toNat_cond, BitVec.toNat_not]
  split_ifs <;> omega

theorem shiftCount_toInt (b : IntMax) : (b &&& 63).toNat = shiftCount b.toInt := by
  have hmask : (b &&& 63).toNat = b.toNat % 64 := by
    rw [BitVec.toNat_and]
    exact Nat.and_two_pow_sub_one_eq_mod b.toNat 6
  have hlt := b.isLt
  rw [hmask, shiftCount, BitVec.toInt_eq_toNat_cond]
  split_ifs <;> omega

theorem shiftCount_lt (b : Int) : shiftCount b < 64 := by
  unfold shiftCount
  omega

theorem toInt_shiftLeft (a b : IntMax) :
    (shiftLeft a b).toInt = wrap (a.toInt * 2 ^ shiftCount b.toInt) := by
  rw [shiftLeft, shiftCount_toInt, BitVec.toInt_shiftLeft, wrap, BitVec.toInt_eq_toNat_bmod a]
  rw [Nat.shiftLeft_eq, Int.natCast_mul, Int.natCast_pow]
  exact Int.bmod_mul_bmod.symm

theorem shiftRight_eq_sshiftRight (a b : IntMax) :
    shiftRight a b = a.sshiftRight (b &&& 63).toNat := by
  have hcount : (b &&& 63).toNat < 64 := by
    rw [shiftCount_toInt]
    exact shiftCount_lt _
  have hneg : a.slt 0 = a.msb := BitVec.slt_zero_eq_msb
  simp only [shiftRight, hneg]
  generalize (b &&& 63).toNat = count at hcount
  split_ifs with hzero hneg
  · simp [hzero]
  · apply BitVec.eq_of_getLsbD_eq
    intro i hi
    simp only [BitVec.getLsbD_or, BitVec.getLsbD_ushiftRight, BitVec.getLsbD_shiftLeft,
      BitVec.getLsbD_allOnes, BitVec.getLsbD_sshiftRight, hneg]
    by_cases hlow : count + i < 64
    · simp [hlow, show ¬64 ≤ i by omega, show i < 64 - count by omega]
    · simp [hlow, show ¬64 ≤ i by omega, show ¬i < 64 - count by omega, hi,
        show i - (64 - count) < 64 by omega]
  · rw [BitVec.sshiftRight_eq_of_msb_false (by simpa using hneg)]

theorem toInt_shiftRight (a b : IntMax) :
    (shiftRight a b).toInt = a.toInt / 2 ^ shiftCount b.toInt := by
  rw [shiftRight_eq_sshiftRight, BitVec.toInt_sshiftRight, shiftCount_toInt,
    Int.shiftRight_eq_div_pow]
  norm_cast

theorem toInt_div (a b : IntMax) :
    (div a b).toInt = wrap (a.toInt.tdiv b.toInt) := by
  unfold div
  split_ifs with h
  · obtain ⟨rfl, rfl⟩ := h
    decide
  · exact BitVec.toInt_sdiv a b

theorem wrap_toInt (a : IntMax) : wrap a.toInt = a.toInt := by
  rw [wrap, BitVec.toInt_eq_toNat_bmod, Int.bmod_bmod]

theorem toInt_mod (a b : IntMax) :
    (mod a b).toInt = wrap (a.toInt.tmod b.toInt) := by
  unfold mod
  split_ifs with h
  · obtain ⟨rfl, rfl⟩ := h
    decide
  · rw [← BitVec.toInt_srem, wrap_toInt]

theorem toInt_ofBool (p : Prop) [Decidable p] : (ofBool (decide p)).toInt = truth p := by
  by_cases h : p <;> simp [ofBool, truth, h]

theorem toInt_eq_zero {a : IntMax} : a.toInt = 0 ↔ a = 0 := by
  rw [← BitVec.toInt_zero (w := 64)]
  exact BitVec.toInt_inj

theorem ofInt_toInt_of_mem {n : Int} (hmin : intMaxMin ≤ n) (hmax : n ≤ intMaxMax) :
    (BitVec.ofInt 64 n).toInt = n := by
  apply BitVec.toInt_ofInt_eq_self (by omega)
  · simpa [intMaxMin] using hmin
  · simp only [intMaxMax] at hmax
    omega

theorem bitwise_toInt (f : IntMax → IntMax → IntMax) (a b : IntMax) :
    (f a b).toInt = bitwise f a.toInt b.toInt := by
  simp [bitwise]

/-! ## Numbers that are read -/

theorem saturate_mem (negative : Bool) (n : Nat) :
    intMaxMin ≤ saturate negative n ∧ saturate negative n ≤ intMaxMax := by
  unfold saturate intMaxMin intMaxMax
  split_ifs <;> omega

theorem strtoimax_mem {value rest : Text} {number : Int}
    (h : strtoimax value = some (number, rest)) :
    intMaxMin ≤ number ∧ number ≤ intMaxMax := by
  simp only [strtoimax] at h
  split_ifs at h
  simp only [Option.some.injEq, Prod.mk.injEq] at h
  rw [← h.1]
  exact saturate_mem _ _

theorem toInt_literal (l : Literal) : (BitVec.ofInt 64 l.value).toInt = l.value := by
  apply ofInt_toInt_of_mem <;> cases l <;> simp only [Literal.value, intMaxMin, intMaxMax] <;>
    omega

end Haisos.Hsh.Arithmetic

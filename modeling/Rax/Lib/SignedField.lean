import Mathlib.Algebra.Order.Ring.Int
import Rax.Lib.Bits

/-!
# Signed fields

A field of a word that is sign-extended by a shift to the top and back: which bits it then has, and
that the low part of a field keeps its bits.
-/

namespace Rax

variable {w : Nat} {x y : BitVec w} {k i : Nat}

theorem getLsbD_of_toNat_lt {n : Nat} (h : x.toNat < 2 ^ n) (hi : n ≤ i) : x.getLsbD i = false := by
  rw [← BitVec.testBit_toNat]
  exact Nat.testBit_lt_two_pow (Nat.lt_of_lt_of_le h (Nat.pow_le_pow_right (by decide) hi))

/-- Sign extension of the low `w - k` bits. -/
def signField (k : Nat) (x : BitVec w) : BitVec w := (x <<< k).sshiftRight k

theorem getLsbD_signField (hk : k < w) (hi : i < w) :
    (signField k x).getLsbD i = if i + k < w then x.getLsbD i else x.getLsbD (w - 1 - k) := by
  rw [signField, BitVec.getLsbD_sshiftRight, BitVec.msb_eq_getLsbD_last, BitVec.getLsbD_shiftLeft,
    BitVec.getLsbD_shiftLeft]
  have hlast : w - 1 < w := by omega
  have hki : ¬w - 1 < k := by omega
  split
  · rename_i hlt
    have hlt' : i + k < w := by omega
    have hpos : k + i - k = i := by omega
    have hnot : ¬k + i < k := by omega
    simp [hi, hlt, hlt', hpos, hnot]
  · rename_i hge
    have hge' : ¬i + k < w := by omega
    simp [hi, hge', hlast, hki]

theorem signField_or : signField k (x ||| y) = signField k x ||| signField k y := by
  rw [signField, signField, signField, BitVec.shiftLeft_or_distrib, BitVec.sshiftRight_or_distrib]

theorem signField_of_lt (hk : k < w) (h : x.toNat < 2 ^ (w - 1 - k)) : signField k x = x := by
  refine BitVec.eq_of_getLsbD_eq fun i hi => ?_
  rw [getLsbD_signField hk hi]
  split
  · rfl
  · rename_i hge
    rw [getLsbD_of_toNat_lt h (by omega), getLsbD_of_toNat_lt h (by omega)]

end Rax

import Mathlib.Tactic.Common

/-!
# Rotations of bit vectors

A rotation reads each bit at an index shifted modulo the width. Rotations to the right add up,
and rotations to the left invert them.
-/

namespace Rax

variable {w : Nat} (x : BitVec w)

theorem getLsbD_rotateRight_mod (k : Nat) {i : Nat} (hi : i < w) :
    (x.rotateRight k).getLsbD i = x.getLsbD ((i + k) % w) := by
  have hk : k % w < w := Nat.mod_lt k (Nat.zero_lt_of_lt hi)
  have hsum : (i + k) % w = (i + k % w) % w := (Nat.add_mod_mod i k w).symm
  rw [BitVec.getLsbD_rotateRight, hsum]
  by_cases hlow : i < w - k % w
  · have hlt : i + k % w < w := by omega
    rw [decide_eq_true hlow, cond_true, Nat.mod_eq_of_lt hlt, Nat.add_comm]
  · have hwrap : (i + k % w) % w = i - (w - k % w) := by
      rw [Nat.mod_eq_sub_mod (by omega), Nat.mod_eq_of_lt (by omega)]
      omega
    rw [decide_eq_false hlow, cond_false, decide_eq_true hi, Bool.true_and, hwrap]

theorem getLsbD_rotateLeft_mod (k : Nat) {i : Nat} (hi : i < w) :
    (x.rotateLeft k).getLsbD i = x.getLsbD ((i + (w - k % w)) % w) := by
  have hk : k % w < w := Nat.mod_lt k (Nat.zero_lt_of_lt hi)
  rw [BitVec.getLsbD_rotateLeft]
  by_cases hlow : i < k % w
  · have hlt : i + (w - k % w) < w := by omega
    rw [decide_eq_true hlow, cond_true, Nat.mod_eq_of_lt hlt, Nat.add_comm]
  · have hwrap : (i + (w - k % w)) % w = i - k % w := by
      rw [Nat.mod_eq_sub_mod (by omega), Nat.mod_eq_of_lt (by omega)]
      omega
    rw [decide_eq_false hlow, cond_false, decide_eq_true hi, Bool.true_and, hwrap]

theorem rotateRight_rotateRight (j k : Nat) :
    (x.rotateRight j).rotateRight k = x.rotateRight (j + k) := by
  refine BitVec.eq_of_getLsbD_eq fun i hi => ?_
  have hw : 0 < w := Nat.zero_lt_of_lt hi
  rw [getLsbD_rotateRight_mod _ _ hi, getLsbD_rotateRight_mod _ _ (Nat.mod_lt _ hw),
    getLsbD_rotateRight_mod _ _ hi, Nat.mod_add_mod]
  congr 2
  omega

/-- Shifting an index back and forth by one count leaves it where it was. -/
theorem mod_sub_add_mod {i : Nat} (hi : i < w) (k : Nat) : (i + (w - k % w) + k) % w = i := by
  have hk : k % w < w := Nat.mod_lt k (Nat.zero_lt_of_lt hi)
  have hdiv := Nat.mod_add_div k w
  have hsum : i + (w - k % w) + k = i + w + w * (k / w) := by omega
  rw [hsum, Nat.add_mul_mod_self_left, Nat.add_mod_right, Nat.mod_eq_of_lt hi]

theorem rotateLeft_rotateRight (k : Nat) : (x.rotateRight k).rotateLeft k = x := by
  refine BitVec.eq_of_getLsbD_eq fun i hi => ?_
  have hw : 0 < w := Nat.zero_lt_of_lt hi
  rw [getLsbD_rotateLeft_mod _ _ hi, getLsbD_rotateRight_mod _ _ (Nat.mod_lt _ hw),
    Nat.mod_add_mod, mod_sub_add_mod hi]

theorem rotateRight_rotateLeft (k : Nat) : (x.rotateLeft k).rotateRight k = x := by
  refine BitVec.eq_of_getLsbD_eq fun i hi => ?_
  have hw : 0 < w := Nat.zero_lt_of_lt hi
  have hindex : i + k + (w - k % w) = i + (w - k % w) + k := by omega
  rw [getLsbD_rotateRight_mod _ _ hi, getLsbD_rotateLeft_mod _ _ (Nat.mod_lt _ hw),
    Nat.mod_add_mod, hindex, mod_sub_add_mod hi]

theorem rotateLeft_rotateLeft (j k : Nat) :
    (x.rotateLeft j).rotateLeft k = x.rotateLeft (j + k) := by
  -- both sides rotate right by `k + j` to `x`
  have hback : ((x.rotateLeft j).rotateLeft k).rotateRight (k + j) = x := by
    rw [← rotateRight_rotateRight, rotateRight_rotateLeft, rotateRight_rotateLeft]
  rw [← rotateLeft_rotateRight ((x.rotateLeft j).rotateLeft k) (k + j), hback, Nat.add_comm]

theorem rotateRight_zero : x.rotateRight 0 = x := by
  refine BitVec.eq_of_getLsbD_eq fun i hi => ?_
  rw [getLsbD_rotateRight_mod _ _ hi, Nat.add_zero, Nat.mod_eq_of_lt hi]

theorem rotateLeft_zero : x.rotateLeft 0 = x := by
  have h := rotateRight_rotateLeft x 0
  rwa [rotateRight_zero] at h

end Rax

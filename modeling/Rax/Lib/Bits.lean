import Mathlib.Tactic.Common

/-!
# Single bits

The ways in which code tests one bit of a word, as reads of that bit.
-/

namespace Rax

variable {w : Nat}

theorem and_one_bne_zero (x : BitVec w) : (x &&& 1#w != 0#w) = x.getLsbD 0 := by
  rw [BitVec.and_one_eq_setWidth_ofBool_getLsbD]
  cases h : x.getLsbD 0 with
  | false => simp
  | true =>
    have hw : 0 < w := BitVec.lt_of_getLsbD h
    have hone : BitVec.setWidth w (BitVec.ofBool true) ≠ 0#w := by
      intro hz
      have hbit := congrArg (fun v : BitVec w => v.getLsbD 0) hz
      simp [hw] at hbit
    simpa using hone

theorem ushiftRight_and_one_bne_zero (x : BitVec w) (k : Nat) :
    ((x >>> k) &&& 1#w != 0#w) = x.getLsbD k := by
  rw [and_one_bne_zero, BitVec.getLsbD_ushiftRight, Nat.add_zero]

/-- A word without bits above the lowest. -/
def LowBit (x : BitVec w) : Prop := ∀ j, 0 < j → x.getLsbD j = false

namespace LowBit

variable {x y : BitVec w}

theorem bne_zero (h : LowBit x) : (x != 0#w) = x.getLsbD 0 := by
  have hcut : x &&& 1#w = x := by
    apply BitVec.eq_of_getLsbD_eq
    intro i hi
    rw [BitVec.getLsbD_and]
    cases i with
    | zero => simp [hi]
    | succ i => simp [h (i + 1) (by omega)]
  rw [← and_one_bne_zero, hcut]

theorem ushiftRight {k : Nat} (h : ∀ j, k < j → x.getLsbD j = false) : LowBit (x >>> k) := by
  intro j hj
  rw [BitVec.getLsbD_ushiftRight]
  exact h (k + j) (by omega)

end LowBit

theorem getLsbD_one_shiftLeft {k i : Nat} (hi : i < w) :
    (1#w <<< k).getLsbD i = decide (i = k) := by
  rw [BitVec.getLsbD_shiftLeft, BitVec.getLsbD_one, Bool.eq_iff_iff]
  simp only [Bool.and_eq_true, Bool.not_eq_true', decide_eq_false_iff_not, decide_eq_true_eq]
  omega

theorem ushiftRight_last_bne_zero (x : BitVec (w + 1)) : (x >>> w != 0#(w + 1)) = x.msb := by
  have hlow : LowBit (x >>> w) := LowBit.ushiftRight fun j hj => BitVec.getLsbD_of_ge x j hj
  rw [hlow.bne_zero, BitVec.getLsbD_ushiftRight, BitVec.msb_eq_getLsbD_last]
  rfl

end Rax

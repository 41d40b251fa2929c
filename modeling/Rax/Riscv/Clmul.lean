import Rax.Lib.CarryLess
import Rax.Lib.SignedField
import Rax.Lib.Word

/-!
# Carry-less multiplication

The three instructions of Zbc and Zbkc as loops over the bits of the second operand, each with its
own shift, and the one product they are slices of.
-/

namespace Rax.Riscv

def maskXbits (v : Word) (xbits : Nat) : Word :=
  if 64 ≤ xbits then v else v &&& ((1#64 <<< xbits) - 1#64)

/-- A loop over bit positions that adds a term where the bit of `b` is set. -/
def addWhereSet (b : Word) (term : Nat → Word) (positions : List Nat) : Word :=
  positions.foldl (fun out i => if (b >>> i) &&& 1#64 != 0#64 then out ^^^ term i else out) 0

/-- Low XLEN bits. -/
def clmul (a b : Word) (xbits : Nat) : Word :=
  maskXbits (addWhereSet b (fun i => a <<< i) (List.range xbits)) xbits

/-- High XLEN bits. -/
def clmulh (a b : Word) (xbits : Nat) : Word :=
  maskXbits (addWhereSet b (fun i => a >>> (xbits - i)) (List.range' 1 (xbits - 1))) xbits

/-- Reversed. -/
def clmulr (a b : Word) (xbits : Nat) : Word :=
  maskXbits (addWhereSet b (fun i => a >>> (xbits - i - 1)) (List.range xbits)) xbits

theorem addWhereSet_eq_xorLoop (b : Word) (term : Nat → Word) (positions : List Nat) :
    addWhereSet b term positions = xorLoop b term positions := by
  simp only [addWhereSet, xorLoop, ushiftRight_and_one_bne_zero]

section Widths

variable {xbits : Nat} (hx : xbits = 32 ∨ xbits = 64)

include hx

theorem getLsbD_maskXbits (v : Word) {k : Nat} (hk : k < 64) :
    (maskXbits v xbits).getLsbD k = (v.getLsbD k && decide (k < xbits)) := by
  rcases hx with rfl | rfl
  · have hmask : ∀ k < 64, ((1#64 <<< 32) - 1#64).getLsbD k = decide (k < 32) := by decide
    rw [maskXbits, if_neg (by decide), BitVec.getLsbD_and, hmask k hk]
  · rw [maskXbits, if_pos (by decide), decide_eq_true hk, Bool.and_true]

variable {a b : Word} (ha : a.toNat < 2 ^ xbits)

omit hx in
include ha in
/-- A bit of the product, from the words as the loops have them. -/
theorem getLsbD_product {k : Nat} (hk : k < 2 * xbits) :
    (carrylessProduct (a.setWidth xbits) (b.setWidth xbits)).getLsbD k =
      parity (fun i => b.getLsbD i && (decide (i ≤ k) && a.getLsbD (k - i)))
        (List.range xbits) := by
  rw [getLsbD_carrylessProduct _ _ hk]
  refine parity_congr fun i hi => ?_
  rw [BitVec.getLsbD_setWidth, BitVec.getLsbD_setWidth, decide_eq_true (List.mem_range.mp hi),
    Bool.true_and]
  by_cases hbit : k - i < xbits
  · rw [decide_eq_true hbit, Bool.true_and]
  · rw [getLsbD_of_toNat_lt ha (by omega), Bool.and_false]

/-- A loop with its mask is a slice of the product, from a bit of it on, if it has the bits of the
slice. -/
theorem eq_slice {v : Word} {start : Nat}
    (hbit : ∀ k < xbits, v.getLsbD k =
      (carrylessProduct (a.setWidth xbits) (b.setWidth xbits)).getLsbD (start + k)) :
    maskXbits v xbits =
      ((carrylessProduct (a.setWidth xbits) (b.setWidth xbits) >>> start).setWidth
        xbits).setWidth 64 := by
  refine BitVec.eq_of_getLsbD_eq fun k hk => ?_
  rw [getLsbD_maskXbits hx _ hk, BitVec.getLsbD_setWidth, BitVec.getLsbD_setWidth,
    BitVec.getLsbD_ushiftRight, decide_eq_true hk, Bool.true_and, Bool.and_comm]
  by_cases hkx : k < xbits
  · rw [hbit k hkx]
  · rw [decide_eq_false hkx, Bool.false_and, Bool.false_and]

include ha

theorem clmul_eq :
    clmul a b xbits =
      ((carrylessProduct (a.setWidth xbits) (b.setWidth xbits) >>> 0).setWidth
        xbits).setWidth 64 := by
  refine eq_slice hx fun k hk => ?_
  rw [addWhereSet_eq_xorLoop, getLsbD_xorLoop, Nat.zero_add, getLsbD_product ha (by omega)]
  refine parity_congr fun i _ => ?_
  rw [BitVec.getLsbD_shiftLeft]
  by_cases hik : i ≤ k
  · simp [hik, show k < 64 by omega, show ¬k < i by omega]
  · simp [hik, show k < i by omega]

theorem clmulh_eq :
    clmulh a b xbits =
      ((carrylessProduct (a.setWidth xbits) (b.setWidth xbits) >>> xbits).setWidth
        xbits).setWidth 64 := by
  refine eq_slice hx fun k hk => ?_
  rw [addWhereSet_eq_xorLoop, getLsbD_xorLoop, getLsbD_product ha (by omega)]
  -- the skipped position 0 would add a bit above the operand
  have hrange : List.range xbits = 0 :: List.range' 1 (xbits - 1) := by
    rw [List.range_eq_range', show xbits = xbits - 1 + 1 by omega, List.range'_succ]
    rfl
  rw [hrange, parity, getLsbD_of_toNat_lt ha (by omega), Bool.and_false, Bool.and_false,
    Bool.false_xor]
  refine parity_congr fun i hi => ?_
  obtain ⟨hlow, hhigh⟩ := List.mem_range'_1.mp hi
  rw [BitVec.getLsbD_ushiftRight, show xbits - i + k = xbits + k - i by omega,
    decide_eq_true (show i ≤ xbits + k by omega), Bool.true_and]

theorem clmulr_eq :
    clmulr a b xbits =
      ((carrylessProduct (a.setWidth xbits) (b.setWidth xbits) >>> (xbits - 1)).setWidth
        xbits).setWidth 64 := by
  refine eq_slice hx fun k hk => ?_
  rw [addWhereSet_eq_xorLoop, getLsbD_xorLoop, getLsbD_product ha (by omega)]
  refine parity_congr fun i hi => ?_
  have hi' := List.mem_range.mp hi
  rw [BitVec.getLsbD_ushiftRight, show xbits - i - 1 + k = xbits - 1 + k - i by omega,
    decide_eq_true (show i ≤ xbits - 1 + k by omega), Bool.true_and]

end Widths

/-- The low XLEN bits of a register in reverse order. -/
def reversed (xbits : Nat) (v : Word) : Word := (v.setWidth xbits).reverse.setWidth 64

theorem getLsbD_reversed {xbits : Nat} (hx : xbits ≤ 64) (v : Word) (k : Nat) :
    (reversed xbits v).getLsbD k = (decide (k < xbits) && v.getLsbD (xbits - 1 - k)) := by
  rw [reversed, BitVec.getLsbD_setWidth, BitVec.getLsbD_reverse, BitVec.getMsbD_eq_getLsbD,
    BitVec.getLsbD_setWidth]
  by_cases hk : k < xbits
  · simp [hk, show k < 64 by omega, show xbits - 1 - k < xbits by omega]
  · simp [hk]

theorem clmulr_eq_reversed {xbits : Nat} (hx : xbits = 32 ∨ xbits = 64) {a b : Word}
    (ha : a.toNat < 2 ^ xbits) :
    clmulr a b xbits = reversed xbits (clmul (reversed xbits a) (reversed xbits b) xbits) := by
  refine BitVec.eq_of_getLsbD_eq fun k hk => ?_
  have hle : xbits ≤ 64 := by omega
  rw [clmulr, getLsbD_maskXbits hx _ hk, getLsbD_reversed hle, clmul,
    getLsbD_maskXbits hx _ (by omega), addWhereSet_eq_xorLoop, addWhereSet_eq_xorLoop,
    getLsbD_xorLoop, getLsbD_xorLoop, Bool.and_comm]
  by_cases hkx : k < xbits
  · rw [decide_eq_true (show xbits - 1 - k < xbits by omega), Bool.and_true, ← parity_reflect]
    refine congrArg _ (parity_congr fun i hi => ?_)
    have hi' := List.mem_range.mp hi
    rw [getLsbD_reversed hle, BitVec.getLsbD_ushiftRight, BitVec.getLsbD_shiftLeft,
      getLsbD_reversed hle, decide_eq_true hi', Bool.true_and,
      show xbits - (xbits - 1 - i) - 1 + k = i + k by omega]
    by_cases hik : i ≤ xbits - 1 - k
    · rw [show xbits - 1 - (xbits - 1 - k - i) = i + k by omega]
      simp [show xbits - 1 - k < 64 by omega, show ¬xbits - 1 - k < i by omega,
        show xbits - 1 - k - i < xbits by omega]
    · rw [getLsbD_of_toNat_lt ha (show xbits ≤ i + k by omega)]
      simp [show xbits - 1 - k < i by omega]
  · rw [decide_eq_false hkx, Bool.false_and, Bool.false_and]

/-- The three instructions are slices of one product of polynomials over two elements, and the
reversed one is the plain one on reversed words. -/
theorem clmul_slices {xbits : Nat} (hx : xbits = 32 ∨ xbits = 64) {a b : Word}
    (ha : a.toNat < 2 ^ xbits) :
    ∃ p : BitVec (2 * xbits),
      toPoly p = toPoly (a.setWidth xbits) * toPoly (b.setWidth xbits) ∧
      clmul a b xbits = (p.setWidth xbits).setWidth 64 ∧
      clmulh a b xbits = ((p >>> xbits).setWidth xbits).setWidth 64 ∧
      clmulr a b xbits = ((p >>> (xbits - 1)).setWidth xbits).setWidth 64 ∧
      clmulr a b xbits = reversed xbits (clmul (reversed xbits a) (reversed xbits b) xbits) := by
  refine ⟨carrylessProduct (a.setWidth xbits) (b.setWidth xbits), toPoly_carrylessProduct _ _, ?_,
    clmulh_eq hx ha, clmulr_eq hx ha, clmulr_eq_reversed hx ha⟩
  rw [clmul_eq hx ha, BitVec.ushiftRight_zero]

/-- x² + 1 times x + 1 on the 32-bit machine. -/
theorem clmul_slices_five_three :
    ∃ p : BitVec (2 * 32), toPoly p = toPoly (5#64 |>.setWidth 32) * toPoly (3#64 |>.setWidth 32) ∧
      clmul 5 3 32 = (p.setWidth 32).setWidth 64 ∧ clmul 5 3 32 = 15 := by
  obtain ⟨p, hp, hlow, -⟩ := clmul_slices (.inl rfl : 32 = 32 ∨ 32 = 64)
    (show (5 : Word).toNat < 2 ^ 32 by decide)
  exact ⟨p, hp, hlow, by decide⟩

end Rax.Riscv

import Rax.Smir.Interpret.Shift

/-!
# Arithmetic at a width

What shifts come to modulo the operand width. Masking to a width and truncating to its bits are the
same, so an equation between masked words is one between shorter bit vectors; a 128-bit operation
works on whole words.
-/

namespace Rax.Smir

namespace OpWidth

/-- The bits of a word that a width covers. -/
def wordBits (w : OpWidth) : Nat := min w.bits 64

theorem wordBits_pos (w : OpWidth) : 0 < w.wordBits := by cases w <;> decide

theorem wordBits_le (w : OpWidth) : w.wordBits ≤ 64 := Nat.min_le_right _ _

/-- A shift by the width less one reaches the top bit that is covered. -/
theorem bits_sub_one_mod (w : OpWidth) : (w.bits - 1) % 64 = w.wordBits - 1 := by cases w <;> rfl

theorem getLsbD_mask (w : OpWidth) (i : Nat) : w.mask.getLsbD i = decide (i < w.wordBits) := by
  have hmask : w.mask = BitVec.setWidth 64 (BitVec.allOnes w.wordBits) := by cases w <;> rfl
  have hle := w.wordBits_le
  rw [hmask, BitVec.getLsbD_setWidth, BitVec.getLsbD_allOnes]
  by_cases hi : i < w.wordBits
  · have hword : i < 64 := by omega
    simp [hi, hword]
  · simp [hi]

theorem toNat_and_mask (v : Word) (w : OpWidth) :
    (v &&& w.mask).toNat = v.toNat % 2 ^ w.wordBits := by
  have hmask : w.mask.toNat = 2 ^ w.wordBits - 1 := by cases w <;> rfl
  rw [BitVec.toNat_and, hmask, Nat.and_two_pow_sub_one_eq_mod]

theorem and_mask_inj {v v' : Word} {w : OpWidth} :
    v &&& w.mask = v' &&& w.mask ↔ v.setWidth w.wordBits = v'.setWidth w.wordBits := by
  rw [← BitVec.toNat_inj, toNat_and_mask, toNat_and_mask, ← BitVec.toNat_inj,
    BitVec.toNat_setWidth, BitVec.toNat_setWidth]

@[simp] theorem and_mask_and_mask (v : Word) (w : OpWidth) :
    v &&& w.mask &&& w.mask = v &&& w.mask := by
  rw [BitVec.and_assoc, BitVec.and_self]

theorem and_mask_of_lt {v : Word} {w : OpWidth} (h : v.toNat < 2 ^ w.wordBits) :
    v &&& w.mask = v :=
  BitVec.eq_of_toNat_eq (by rw [toNat_and_mask, Nat.mod_eq_of_lt h])

theorem toNat_and_mask_lt (v : Word) (w : OpWidth) : (v &&& w.mask).toNat < 2 ^ w.wordBits := by
  rw [toNat_and_mask]
  exact Nat.mod_lt _ (Nat.two_pow_pos _)

theorem and_mask_of_wide {w : OpWidth} (h : 64 ≤ w.bits) (v : Word) : v &&& w.mask = v := by
  have hmask : w.mask = BitVec.allOnes 64 := by cases w <;> first | rfl | (simp [bits] at h)
  rw [hmask, BitVec.and_allOnes]

end OpWidth

namespace Interpret

theorem shiftResult_shl (width : OpWidth) (v : Word) (n : Nat) :
    shiftResult .shl width (v &&& width.mask) n = (v <<< n) &&& width.mask := by
  have hpow (h : width.bits ≤ n) : 2 ^ width.wordBits ∣ 2 ^ n :=
    Nat.pow_dvd_pow 2 (le_trans (Nat.min_le_left _ _) h)
  have h64 : 2 ^ width.wordBits ∣ 2 ^ 64 := Nat.pow_dvd_pow 2 (Nat.min_le_right _ _)
  refine BitVec.eq_of_toNat_eq ?_
  simp only [shiftResult]
  split
  · next h =>
    rw [OpWidth.toNat_and_mask, BitVec.toNat_shiftLeft, Nat.shiftLeft_eq,
      Nat.mod_mod_of_dvd _ h64, Nat.mod_eq_zero_of_dvd (Nat.dvd_trans (hpow h) (Nat.dvd_mul_left _ _))]
    rfl
  · rw [OpWidth.toNat_and_mask, OpWidth.toNat_and_mask, BitVec.toNat_shiftLeft,
      BitVec.toNat_shiftLeft, Nat.shiftLeft_eq, Nat.shiftLeft_eq, Nat.mod_mod_of_dvd _ h64,
      Nat.mod_mod_of_dvd _ h64, OpWidth.toNat_and_mask, Nat.mod_mul_mod]

theorem shiftResult_shr (width : OpWidth) (v : Word) (n : Nat) :
    shiftResult .shr width (v &&& width.mask) n = (v &&& width.mask) >>> n := by
  have hlt := OpWidth.toNat_and_mask_lt v width
  refine BitVec.eq_of_toNat_eq ?_
  simp only [shiftResult]
  split
  · next h =>
    have hn : 2 ^ width.wordBits ≤ 2 ^ n :=
      Nat.pow_le_pow_right (by decide) (le_trans (Nat.min_le_left _ _) h)
    rw [BitVec.toNat_ushiftRight, Nat.shiftRight_eq_div_pow, Nat.div_eq_of_lt (by omega)]
    rfl
  · have hdiv := Nat.div_le_self (v &&& width.mask).toNat (2 ^ n)
    rw [OpWidth.toNat_and_mask, BitVec.toNat_ushiftRight, Nat.shiftRight_eq_div_pow,
      Nat.mod_eq_of_lt (by omega)]

/-- The value that a shift stores, before it is cut to the width. -/
def shiftValue (kind : ShiftKind) (width : OpWidth) (v : Word) (n : Nat) : Word :=
  match kind with
  | .shl => v <<< n
  | .shr => (v &&& width.mask) >>> n
  | .sar => shiftResult .sar width (signExtend (v &&& width.mask) width) n

theorem shr_and_mask (width : OpWidth) (v : Word) (n : Nat) :
    (v &&& width.mask) >>> n &&& width.mask = (v &&& width.mask) >>> n := by
  refine OpWidth.and_mask_of_lt ?_
  rw [BitVec.toNat_ushiftRight, Nat.shiftRight_eq_div_pow]
  exact Nat.lt_of_le_of_lt (Nat.div_le_self _ _) (OpWidth.toNat_and_mask_lt v width)

theorem shift_writes (kind : ShiftKind) (sourceArch : SourceArch) (dst : VReg)
    (src amount : Word) (width : OpWidth) (flags : FlagUpdate) :
    (shift kind sourceArch dst src amount width flags).writes =
      [.toGpr dst width (shiftValue kind width src
        (amount &&& scalarShiftCountMask sourceArch width).toNat &&& width.mask)] := by
  cases kind with
  | shl => simp only [shift, shiftValue, shiftResult_shl]
  | shr => simp only [shift, shiftValue, shiftResult_shr, shr_and_mask]
  | sar =>
    have hcut (val : Word) (n : Nat) :
        shiftResult .sar width val n &&& width.mask = shiftResult .sar width val n := by
      simp only [shiftResult]
      split_ifs <;> simp
    simp only [shift, shiftValue, hcut]

end Interpret

end Rax.Smir

import Rax.Lib.BitRank
import Rax.Smir.Interpret.Bit
import Rax.X86.LazyFlags

/-!
# Parallel deposit and extract

PDEP and PEXT of the direct vCPU, as functions of the values of their operands, next to the same
operations of the SMIR interpreter.
-/

namespace Rax.X86

/-- The operand mask of the two instructions. -/
def bmiMask (opSize : OpSize) : Word :=
  if opSize = .b8 then 0xFFFFFFFFFFFFFFFF#64 else 0xFFFFFFFF#64

def pdep (opSize : OpSize) (src selector : Word) : Word :=
  ((List.range opSize.bits).foldl
    (fun (acc : Word × Nat) i =>
      if ((selector &&& bmiMask opSize) >>> i) &&& 1#64 != 0#64 then
        (if ((src &&& bmiMask opSize) >>> acc.2) &&& 1#64 != 0#64 then acc.1 ||| (1#64 <<< i)
          else acc.1, acc.2 + 1)
      else acc)
    (0, 0)).1 &&& bmiMask opSize

def pext (opSize : OpSize) (src selector : Word) : Word :=
  ((List.range opSize.bits).foldl
    (fun (acc : Word × Nat) i =>
      if ((selector &&& bmiMask opSize) >>> i) &&& 1#64 != 0#64 then
        (if ((src &&& bmiMask opSize) >>> i) &&& 1#64 != 0#64 then acc.1 ||| (1#64 <<< acc.2)
          else acc.1, acc.2 + 1)
      else acc)
    (0, 0)).1 &&& bmiMask opSize

theorem pdep_eq (opSize : OpSize) (src selector : Word) :
    pdep opSize src selector = (depositLoop (src &&& bmiMask opSize)
      (selector &&& bmiMask opSize) opSize.bits).1 &&& bmiMask opSize := by
  simp only [pdep, ushiftRight_and_one_bne_zero]
  rfl

theorem pext_eq (opSize : OpSize) (src selector : Word) :
    pext opSize src selector = (extractLoop (src &&& bmiMask opSize)
      (selector &&& bmiMask opSize) opSize.bits).1 &&& bmiMask opSize := by
  simp only [pext, ushiftRight_and_one_bne_zero]
  rfl

/-! ## The interpreter's loops -/

section Interpreter

open Smir.Interpret (deposit extract)

theorem shr_bit (x : Word) {i : Nat} (hi : i < 64) : (Word.shr x i).bit 0 = x.getLsbD i := by
  rw [Word.shr, Word.bit, BitVec.getLsbD_ushiftRight, Nat.mod_eq_of_lt hi, Nat.add_zero]

variable (src mask : Word) {n : Nat}

/-- The interpreter reduces its shift counts, but they stay below the word size. -/
theorem deposit_eq (hn : n ≤ 64) : deposit src mask n = (depositLoop src mask n).1 := by
  refine congrArg Prod.fst ?_
  induction n with
  | zero => rfl
  | succ n ih =>
    have hcount : (depositLoop src mask n).2 < 64 := by
      rw [depositLoop_snd]
      exact Nat.lt_of_le_of_lt (rank_le _ n) hn
    rw [List.range_succ, List.foldl_append, ih (by omega), depositLoop_succ, depositStep]
    simp only [List.foldl_cons, List.foldl_nil, shr_bit _ hcount, shr_bit _ (show n < 64 by omega),
      Word.shl, Nat.mod_eq_of_lt (show n < 64 by omega)]
    rfl

theorem extract_eq (hn : n ≤ 64) : extract src mask n = (extractLoop src mask n).1 := by
  refine congrArg Prod.fst ?_
  induction n with
  | zero => rfl
  | succ n ih =>
    have hcount : (extractLoop src mask n).2 < 64 := by
      rw [extractLoop_snd]
      exact Nat.lt_of_le_of_lt (rank_le _ n) hn
    rw [List.range_succ, List.foldl_append, ih (by omega), extractLoop_succ, extractStep]
    simp only [List.foldl_cons, List.foldl_nil, shr_bit _ (show n < 64 by omega), Word.shl,
      Nat.mod_eq_of_lt hcount]
    rfl

end Interpreter

/-! ## The laws -/

/-- The interpreter's width for an operand size. -/
def widthOf : OpSize → Smir.OpWidth
  | .b1 => .w8
  | .b2 => .w16
  | .b4 => .w32
  | .b8 => .w64

section Laws

variable {opSize : OpSize} (hsize : opSize = .b4 ∨ opSize = .b8)

include hsize

theorem getLsbD_bmiMask {j : Nat} (hj : j < 64) :
    (bmiMask opSize).getLsbD j = decide (j < opSize.bits) := by
  rcases hsize with rfl | rfl
  · have hall : ∀ j < 64, (bmiMask .b4).getLsbD j = decide (j < OpSize.bits .b4) := by decide
    exact hall j hj
  · have hall : ∀ j < 64, (bmiMask .b8).getLsbD j = decide (j < OpSize.bits .b8) := by decide
    exact hall j hj

theorem bits_le : opSize.bits ≤ 64 := by rcases hsize with rfl | rfl <;> decide

theorem and_bmiMask {x : Word} (h : ∀ j, opSize.bits ≤ j → x.getLsbD j = false) :
    x &&& bmiMask opSize = x := by
  refine BitVec.eq_of_getLsbD_eq fun j hj => ?_
  rw [BitVec.getLsbD_and, getLsbD_bmiMask hsize hj]
  by_cases hbit : j < opSize.bits
  · rw [decide_eq_true hbit, Bool.and_true]
  · rw [h j (by omega), Bool.false_and]

theorem getLsbD_masked (x : Word) (j : Nat) :
    (x &&& bmiMask opSize).getLsbD j = (x.getLsbD j && decide (j < opSize.bits)) := by
  by_cases hj : j < 64
  · rw [BitVec.getLsbD_and, getLsbD_bmiMask hsize hj]
  · rw [BitVec.getLsbD_of_ge _ _ (by omega), BitVec.getLsbD_of_ge x _ (by omega), Bool.false_and]

variable (x m : Word)

omit hsize in
theorem pdep_fits {j : Nat} (h : opSize.bits ≤ j) :
    (depositLoop (x &&& bmiMask opSize) (m &&& bmiMask opSize) opSize.bits).1.getLsbD j =
      false := by
  by_cases hj : j < 64
  · rw [getLsbD_depositLoop _ _ _ hj, decide_eq_false (by omega), Bool.false_and]
  · exact BitVec.getLsbD_of_ge _ _ (by omega)

theorem pext_fits {j : Nat} (h : opSize.bits ≤ j) :
    (extractLoop (x &&& bmiMask opSize) (m &&& bmiMask opSize) opSize.bits).1.getLsbD j =
      false := by
  rw [Bool.eq_false_iff, ne_eq, getLsbD_extractLoop _ _ _ (bits_le hsize)]
  rintro ⟨i, hi, -, hrank, -⟩
  have hle := rank_le (m &&& bmiMask opSize).getLsbD i
  omega

theorem countOnes_masked :
    (m &&& bmiMask opSize).countOnes = rank (m &&& bmiMask opSize).getLsbD opSize.bits := by
  have hclear := rank_of_clear (m := (m &&& bmiMask opSize).getLsbD) (n := opSize.bits)
    (fun i hi => by rw [getLsbD_masked hsize, decide_eq_false (by omega), Bool.and_false])
    (64 - opSize.bits)
  rw [Nat.add_sub_cancel' (bits_le hsize)] at hclear
  exact hclear

/-- Extracting what was deposited gives the source cut to as many bits as the selector has. -/
theorem pext_pdep :
    pext opSize (pdep opSize x m) m =
      BitVec.ofNat 64 (x.toNat % 2 ^ (m &&& bmiMask opSize).countOnes) := by
  have hin := and_bmiMask hsize fun j => pdep_fits x m
  rw [pext_eq, pdep_eq, hin, hin, countOnes_masked hsize]
  refine BitVec.eq_of_getLsbD_eq fun j hj => ?_
  have hrank := rank_le (m &&& bmiMask opSize).getLsbD opSize.bits
  rw [getLsbD_masked hsize, getLsbD_extract_deposit _ _ _ (bits_le hsize), getLsbD_masked hsize,
    BitVec.getLsbD_ofNat, Nat.testBit_mod_two_pow, BitVec.testBit_toNat, decide_eq_true hj,
    Bool.true_and]
  by_cases hlow : j < rank (m &&& bmiMask opSize).getLsbD opSize.bits
  · simp [show j < opSize.bits by omega]
  · simp [hlow]

theorem pdep_pext : pdep opSize (pext opSize x m) m = x &&& m &&& bmiMask opSize := by
  have hin := and_bmiMask hsize fun j => pext_fits hsize x m
  rw [pdep_eq, pext_eq, hin, hin]
  refine BitVec.eq_of_getLsbD_eq fun j hj => ?_
  rw [getLsbD_masked hsize, getLsbD_deposit_extract _ _ _ (bits_le hsize) hj, getLsbD_masked hsize,
    getLsbD_masked hsize, getLsbD_masked hsize, BitVec.getLsbD_and]
  cases x.getLsbD j <;> cases m.getLsbD j <;> simp

end Laws

/-- The two engines agree on both instructions, and the instructions undo each other as far as the
selector goes. -/
theorem pdep_pext_agree {opSize : OpSize} (hsize : opSize = .b4 ∨ opSize = .b8) (x m : Word)
    (dst : Smir.VReg) :
    Smir.Interpret.pdep dst x m (widthOf opSize) =
        { writes := [.toGpr dst (widthOf opSize) (pdep opSize x m)] } ∧
      Smir.Interpret.pext dst x m (widthOf opSize) =
        { writes := [.toGpr dst (widthOf opSize) (pext opSize x m)] } ∧
      pext opSize (pdep opSize x m) m =
        BitVec.ofNat 64 (x.toNat % 2 ^ (m &&& bmiMask opSize).countOnes) ∧
      pdep opSize (pext opSize x m) m = x &&& m &&& bmiMask opSize := by
  have hmask : (widthOf opSize).mask = bmiMask opSize := by rcases hsize with rfl | rfl <;> rfl
  have hbits : (widthOf opSize).bits = opSize.bits := by rcases hsize with rfl | rfl <;> rfl
  refine ⟨?_, ?_, pext_pdep hsize x m, pdep_pext hsize x m⟩
  · rw [Smir.Interpret.pdep, hmask, hbits, deposit_eq _ _ (bits_le hsize), pdep_eq]
  · rw [Smir.Interpret.pext, hmask, hbits, extract_eq _ _ (bits_le hsize), pext_eq]

theorem pdep_pext_agree_word :
    pext .b4 (pdep .b4 0xB#64 0xF0#64) 0xF0#64 =
      BitVec.ofNat 64 ((0xB#64).toNat % 2 ^ Word.countOnes (0xF0#64 &&& bmiMask .b4)) :=
  (pdep_pext_agree (.inl rfl) 0xB#64 0xF0#64 (.virt 0)).2.2.1

end Rax.X86

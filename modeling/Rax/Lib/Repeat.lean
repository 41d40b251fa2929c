import Rax.Lib.Word

/-!
# Repeated elements

A word is built from an element by or-ing shifted copies of it. If the copies stand at the
multiples of the element's size, the bits of the word are those of the element, over and over.
A rotated run of ones is given by its bits.
-/

namespace Rax

variable {w : Nat}

/-- Or copies of a pattern into a word. -/
def spread (pattern : BitVec w) (positions : List Nat) (acc : BitVec w) : BitVec w :=
  positions.foldl (fun acc pos => acc ||| pattern <<< pos) acc

theorem getLsbD_spread (pattern : BitVec w) (positions : List Nat) (acc : BitVec w) {i : Nat}
    (hi : i < w) : (spread pattern positions acc).getLsbD i = true ↔
      acc.getLsbD i = true ∨ ∃ pos ∈ positions, pos ≤ i ∧ pattern.getLsbD (i - pos) = true := by
  induction positions generalizing acc with
  | nil => simp [spread]
  | cons pos positions ih =>
    have hstep : spread pattern (pos :: positions) acc =
        spread pattern positions (acc ||| pattern <<< pos) := rfl
    rw [hstep, ih, BitVec.getLsbD_or, BitVec.getLsbD_shiftLeft, Bool.or_eq_true]
    simp only [hi, decide_true, Bool.true_and, Bool.and_eq_true, Bool.not_eq_true',
      decide_eq_false_iff_not, Nat.not_lt, List.mem_cons, exists_eq_or_imp]
    exact or_assoc

/-- Copies at all multiples of the size below a limit. -/
theorem getLsbD_spread_multiples {pattern : BitVec w} {positions : List Nat} {size limit i : Nat}
    (hpattern : ∀ j, size ≤ j → pattern.getLsbD j = false)
    (hlimit : size ∣ limit) (hpos : ∀ pos, pos ∈ positions ↔ size ∣ pos ∧ pos < limit)
    (hi : i < w) :
    (spread pattern positions 0).getLsbD i =
      (decide (i < limit) && pattern.getLsbD (i % size)) := by
  rw [Bool.eq_iff_iff, getLsbD_spread pattern positions 0 hi, Bool.and_eq_true, decide_eq_true_iff]
  constructor
  · rintro (hzero | ⟨pos, hmem, hle, hbit⟩)
    · simp at hzero
    · obtain ⟨⟨k, rfl⟩, hlt⟩ := (hpos pos).mp hmem
      obtain ⟨n, rfl⟩ := hlimit
      have hin : i - size * k < size := by
        by_contra hout
        rw [hpattern _ (Nat.not_lt.mp hout)] at hbit
        cases hbit
      have hk : k + 1 ≤ n := Nat.lt_of_mul_lt_mul_left hlt
      have hnext : size * (k + 1) ≤ size * n := Nat.mul_le_mul_left size hk
      have hmod : i % size = i - size * k := by
        rw [← Nat.sub_mul_mod hle, Nat.mod_eq_of_lt hin]
      rw [Nat.mul_add, Nat.mul_one] at hnext
      exact ⟨by omega, hmod ▸ hbit⟩
  · rintro ⟨hlt, hbit⟩
    refine .inr ⟨size * (i / size), (hpos _).mpr ⟨⟨_, rfl⟩, ?_⟩, Nat.mul_div_le i size, ?_⟩
    · exact Nat.lt_of_le_of_lt (Nat.mul_div_le i size) hlt
    · rwa [← Nat.mod_eq_sub_mul_div]

theorem spread_self (pattern : BitVec w) (positions : List Nat) :
    spread pattern positions pattern = spread pattern (0 :: positions) 0 := by
  show _ = spread pattern positions (0 ||| pattern <<< 0)
  simp

/-- The positions of a loop that starts at `first` and goes on by `size` while below `limit`. -/
def stepsFrom (first limit size : Nat) : List Nat :=
  List.range' first ((limit - first + (size - 1)) / size) size

theorem mem_stepsFrom {first limit size pos : Nat} (hsize : 0 < size) :
    pos ∈ stepsFrom first limit size ↔ ∃ k, pos = first + size * k ∧ pos < limit := by
  rw [stepsFrom, List.mem_range']
  constructor
  · rintro ⟨k, hk, rfl⟩
    rw [Nat.lt_div_iff_mul_lt hsize] at hk
    refine ⟨k, rfl, ?_⟩
    rw [Nat.mul_comm] at hk
    omega
  · rintro ⟨k, rfl, hlt⟩
    refine ⟨k, ?_, rfl⟩
    rw [Nat.lt_div_iff_mul_lt hsize, Nat.mul_comm]
    omega

/-! ## Runs of ones -/

/-- The bits of `ones` ones at the bottom of `size` bits, rotated right. -/
def rotatedRun (size ones rot i : Nat) : Bool := (i + rot) % size < ones

theorem rotatedRun_mod (size ones rot i : Nat) :
    rotatedRun size ones (rot % size) i = rotatedRun size ones rot i := by
  unfold rotatedRun
  rw [Nat.add_mod_mod]

namespace Word

theorem getLsbD_lowMask {n : Nat} (hn : n < 64) (i : Nat) :
    (lowMask n).getLsbD i = decide (i < n) := by
  have hval : (lowMask n).toNat = 2 ^ n - 1 := by
    have hsmall : 2 ^ n < 2 ^ 64 := Nat.pow_lt_pow_right (by decide) hn
    have hone : 1 ≤ 2 ^ n := Nat.one_le_two_pow
    have hshift : (1#64 <<< n).toNat = 2 ^ n := by
      rw [BitVec.toNat_shiftLeft, Nat.shiftLeft_eq]
      exact (Nat.one_mul _).symm ▸ Nat.mod_eq_of_lt hsmall
    show (1#64 <<< n - 1#64).toNat = _
    rw [BitVec.toNat_sub_of_le, hshift]
    · rfl
    · rw [BitVec.le_def, hshift]
      exact hone
  rw [BitVec.getLsbD, hval, Nat.testBit_two_pow_sub_one]

end Word

end Rax

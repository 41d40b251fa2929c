import Rax.Lib.Bits
import Rax.Lib.FixedPoint
import Rax.Lib.Word

/-!
# Fixed-point rounding

`round_incr` looks at single bits of the value that is shifted: the guard bit, the bits below it and
the last bit that stays. Added to the shifted value it rounds the exact quotient, for the logical
and for the arithmetic shift.
-/

namespace Rax.Riscv

/-- The bit at a position, as a number. -/
def bitAt (bits : BitVec 128) (i : Nat) : BitVec 128 := (bits >>> i) &&& 1#128

/-- Some of the low bits is set. -/
def lowSet (bits : BitVec 128) (n : Nat) : Bool := bits &&& ((1#128 <<< n) - 1#128) != 0#128

/-- The increment for a right shift by `d` under a rounding mode. -/
def roundIncr (bits : BitVec 128) (d vxrm : Nat) : BitVec 128 :=
  if d = 0 then 0
  else match vxrm with
    | 0 => bitAt bits (d - 1)
    | 1 => bitAt bits (d - 1) &&&
        (bitAt bits d ||| if decide (2 ≤ d) && lowSet bits (d - 1) then 1 else 0)
    | 2 => 0
    | _ => (1 - bitAt bits d) &&& if lowSet bits d then 1 else 0

/-- The modes by their number in `vxrm`. -/
def vxrmOf : RoundingMode → Nat
  | .nearestUp => 0
  | .nearestEven => 1
  | .down => 2
  | .odd => 3

/-- A truth value as a number. -/
def flag (b : Bool) : BitVec 128 := if b then 1 else 0

theorem flag_and (a b : Bool) : flag a &&& flag b = flag (a && b) := by
  cases a <;> cases b <;> rfl

theorem flag_or (a b : Bool) : flag a ||| flag b = flag (a || b) := by
  cases a <;> cases b <;> rfl

theorem one_sub_flag (a : Bool) : 1 - flag a = flag !a := by cases a <;> rfl

theorem bitAt_eq (bits : BitVec 128) (i : Nat) :
    bitAt bits i = flag (decide (bits.toNat / 2 ^ i % 2 = 1)) := by
  have hbit : bits.getLsbD i = decide (bits.toNat / 2 ^ i % 2 = 1) := by
    rw [← BitVec.testBit_toNat, Nat.testBit_eq_decide_div_mod_eq]
  rw [bitAt, BitVec.and_one_eq_setWidth_ofBool_getLsbD, BitVec.getLsbD_ushiftRight, Nat.add_zero,
    hbit]
  cases decide (bits.toNat / 2 ^ i % 2 = 1) <;> rfl

theorem lowSet_eq (bits : BitVec 128) {n : Nat} (hn : n < 128) :
    lowSet bits n = decide (bits.toNat % 2 ^ n ≠ 0) := by
  have hpow : 2 ^ n < 2 ^ 128 := Nat.pow_lt_pow_right (by decide) hn
  have hpos := Nat.two_pow_pos n
  have hmask : ((1#128 <<< n) - 1#128).toNat = 2 ^ n - 1 := by
    rw [BitVec.toNat_sub, BitVec.toNat_shiftLeft, BitVec.toNat_ofNat, Nat.shiftLeft_eq]
    omega
  rw [lowSet, Bool.eq_iff_iff, bne_iff_ne, decide_eq_true_eq, ne_eq, ← BitVec.toNat_inj,
    BitVec.toNat_and, hmask, Nat.and_two_pow_sub_one_eq_mod]
  rfl

/-- The increment is one where the discarded remainder and the last bit say so. -/
theorem roundIncr_eq (bits : BitVec 128) {t : Nat} (ht : t + 1 < 128) (mode : RoundingMode) :
    roundIncr bits (t + 1) (vxrmOf mode) =
      flag (mode.roundsUp (2 ^ t : Nat) (bits.toNat % 2 ^ (t + 1) : Nat)
        (decide (bits.toNat / 2 ^ (t + 1) % 2 = 1))) := by
  -- the remainder is the sticky bits and the guard bit
  have hguard := Nat.mod_pow_succ (b := 2) (k := t) (x := bits.toNat)
  have hsticky := Nat.mod_lt bits.toNat (Nat.two_pow_pos t)
  have hbound := Nat.mod_lt (bits.toNat / 2 ^ t) (by decide : 2 > 0)
  have hzero : t = 0 → bits.toNat % 2 ^ t = 0 := by
    rintro rfl
    exact Nat.mod_one _
  have hpos := Nat.two_pow_pos t
  obtain hg | hg : bits.toNat / 2 ^ t % 2 = 0 ∨ bits.toNat / 2 ^ t % 2 = 1 := by omega
  all_goals
    rw [hg] at hguard
    cases mode with
    | nearestUp =>
      change bitAt bits t = _
      rw [bitAt_eq]
      refine congrArg flag (Bool.eq_iff_iff.mpr ?_)
      simp only [RoundingMode.roundsUp, decide_eq_true_eq, Nat.cast_le]
      omega
    | nearestEven =>
      change bitAt bits t &&& (bitAt bits (t + 1) ||| flag (decide (2 ≤ t + 1) && lowSet bits t)) = _
      rw [bitAt_eq, bitAt_eq, lowSet_eq bits (by omega), flag_or, flag_and]
      refine congrArg flag (Bool.eq_iff_iff.mpr ?_)
      simp only [RoundingMode.roundsUp, decide_eq_true_eq, Bool.and_eq_true, Bool.or_eq_true,
        Nat.cast_lt, Nat.cast_inj]
      omega
    | down => rfl
    | odd =>
      change (1 - bitAt bits (t + 1)) &&& flag (lowSet bits (t + 1)) = _
      rw [bitAt_eq, lowSet_eq bits ht, one_sub_flag, flag_and]
      refine congrArg flag (Bool.eq_iff_iff.mpr ?_)
      simp only [RoundingMode.roundsUp, decide_eq_true_eq, Bool.and_eq_true, Bool.not_eq_true',
        decide_eq_false_iff_not, ne_eq, Nat.cast_eq_zero]
      omega

theorem toNat_flag (b : Bool) : ((flag b).toNat : ℤ) = if b then 1 else 0 := by cases b <;> rfl

/-- What the machine adds is what rounding adds, for an integer with the same low bits. -/
theorem round_of_congr {bits : BitVec 128} {n : ℤ} {d : Nat} (hd : d < 128)
    (h : (bits.toNat : ℤ) % 2 ^ (d + 1) = n % 2 ^ (d + 1)) (mode : RoundingMode) :
    mode.round ((n : ℚ) / 2 ^ d) = n / 2 ^ d + (roundIncr bits d (vxrmOf mode)).toNat := by
  cases d with
  | zero =>
    rw [pow_zero, div_one, RoundingMode.round_intCast, pow_zero, Int.ediv_one]
    exact (add_zero n).symm
  | succ t =>
    have hhalf : (0 : ℤ) < 2 ^ t := by positivity
    have htwo : (2 : ℤ) ^ (t + 1) = 2 * 2 ^ t := by rw [pow_succ, mul_comm]
    have hrem : n % 2 ^ (t + 1) = ((bits.toNat % 2 ^ (t + 1) : Nat) : ℤ) := by
      have hdvd : (2 : ℤ) ^ (t + 1) ∣ 2 ^ (t + 1 + 1) := pow_dvd_pow 2 (Nat.le_succ _)
      push_cast
      rw [← Int.emod_emod_of_dvd n hdvd, ← h, Int.emod_emod_of_dvd _ hdvd]
    have hodd : decide (Odd (n / 2 ^ (t + 1))) =
        decide (bits.toNat / 2 ^ (t + 1) % 2 = 1) := by
      have hparity : n / 2 ^ (t + 1) % 2 = ((bits.toNat / 2 ^ (t + 1) % 2 : Nat) : ℤ) := by
        have hpow : (2 : ℤ) ^ (t + 1 + 1) = 2 * 2 ^ (t + 1) := by rw [pow_succ, mul_comm]
        rw [hpow] at h
        push_cast
        rw [RoundingMode.ediv_emod_two n (by positivity), ← h,
          ← RoundingMode.ediv_emod_two _ (by positivity)]
      rw [decide_eq_decide, Int.odd_iff, hparity]
      exact Nat.cast_eq_one
    have hround := RoundingMode.round_div (n := n) hhalf mode
    rw [← htwo, hrem, hodd] at hround
    have hcast : (2 : ℚ) ^ (t + 1) = 2 * ((2 ^ t : ℤ) : ℚ) := by push_cast; rw [pow_succ, mul_comm]
    rw [hcast, hround, roundIncr_eq bits hd, toNat_flag]
    push_cast
    rfl

section Shifts

variable {w : Nat} (hw : w ≤ 128) (v : BitVec w) {d : Nat} (hd : d < w) {bits : BitVec 128}
  (hbits : bits.setWidth w = v) (mode : RoundingMode)

include hd hbits

/-- The bits the increment is taken from are those of the operand, as far as they matter. -/
theorem toNat_congr : (bits.toNat : ℤ) % 2 ^ (d + 1) = (v.toNat : ℤ) % 2 ^ (d + 1) := by
  have hdvd : 2 ^ (d + 1) ∣ 2 ^ w := Nat.pow_dvd_pow 2 hd
  have hnat : v.toNat % 2 ^ (d + 1) = bits.toNat % 2 ^ (d + 1) := by
    rw [← hbits, BitVec.toNat_setWidth, Nat.mod_mod_of_dvd _ hdvd]
  exact_mod_cast hnat.symm

theorem toInt_congr : (bits.toNat : ℤ) % 2 ^ (d + 1) = v.toInt % 2 ^ (d + 1) := by
  have hdvd : (2 : ℤ) ^ (d + 1) ∣ 2 ^ w := pow_dvd_pow 2 hd
  have hmod : v.toInt % 2 ^ w = (v.toNat : ℤ) % 2 ^ w := by
    rw [BitVec.toInt_eq_toNat_bmod]
    exact_mod_cast Int.bmod_emod
  rw [toNat_congr v hd hbits, ← Int.emod_emod_of_dvd _ hdvd, ← hmod, Int.emod_emod_of_dvd _ hdvd]

omit hd hbits in
theorem roundIncr_le (bits : BitVec 128) {d : Nat} (hd : d < 128) (mode : RoundingMode) :
    (roundIncr bits d (vxrmOf mode)).toNat ≤ min d 1 := by
  cases d with
  | zero => exact Nat.le_refl 0
  | succ t =>
    rw [roundIncr_eq bits hd]
    cases mode.roundsUp _ _ _ with
    | false => exact Nat.zero_le _
    | true => exact Nat.le_min.mpr ⟨Nat.succ_pos t, Nat.le_refl 1⟩

include hw

/-- The shifted value and the increment, added in 128 bits, are the exact quotient rounded. -/
theorem shift_round_exact :
    (((v.setWidth 128 >>> d) + roundIncr bits d (vxrmOf mode)).toNat : ℤ) =
        mode.round ((v.toNat : ℚ) / 2 ^ d) ∧
      ((v.signExtend 128).sshiftRight d + roundIncr bits d (vxrmOf mode)).toInt =
        mode.round ((v.toInt : ℚ) / 2 ^ d) := by
  have hd128 : d < 128 := by omega
  have hincr := roundIncr_le bits hd128 mode
  have hlogical := round_of_congr hd128 (toNat_congr v hd hbits) mode
  have harith := round_of_congr hd128 (toInt_congr v hd hbits) mode
  rw [Int.cast_natCast] at hlogical
  rw [hlogical, harith]
  generalize roundIncr bits d (vxrmOf mode) = incr at hincr ⊢
  -- a shift by one bit or more makes room for the increment
  have hroom : d = 0 ∨ 2 ≤ 2 ^ d := by
    rcases Nat.eq_zero_or_pos d with h | h
    · exact .inl h
    · exact .inr (Nat.le_self_pow (by omega) 2)
  have hpow : ((2 ^ d : Nat) : ℤ) = 2 ^ d := by push_cast; rfl
  constructor
  · have hlt := v.isLt
    have hle : 2 ^ w ≤ 2 ^ 128 := Nat.pow_le_pow_right (by decide) hw
    have hsmall : v.toNat / 2 ^ d + incr.toNat < 2 ^ 128 := by
      rcases hroom with rfl | hroom
      · rw [pow_zero, Nat.div_one]
        omega
      · have hhalf : v.toNat / 2 ^ d ≤ v.toNat / 2 := Nat.div_le_div_left hroom (by decide)
        omega
    rw [BitVec.toNat_add, BitVec.toNat_ushiftRight, BitVec.toNat_setWidth_of_le hw,
      Nat.shiftRight_eq_div_pow, Nat.mod_eq_of_lt hsmall]
    push_cast
    rfl
  · have hlow := BitVec.le_toInt (v.signExtend 128)
    have hhigh := BitVec.toInt_lt (x := v.signExtend 128)
    rw [BitVec.toInt_signExtend_of_le hw] at hlow hhigh
    have hone : incr.toInt = incr.toNat := BitVec.toInt_eq_toNat_of_lt (by omega)
    have hfit : -(2 ^ 127 : ℤ) ≤ v.toInt / 2 ^ d + incr.toNat ∧
        v.toInt / 2 ^ d + incr.toNat < (2 ^ 127 : ℤ) := by
      rcases hroom with rfl | hroom
      · rw [pow_zero, Int.ediv_one]
        omega
      · have hdivisor : (2 : ℤ) ≤ 2 ^ d := by exact_mod_cast hroom
        generalize (2 : ℤ) ^ d = m at hdivisor ⊢
        have hge : -(2 ^ 126 : ℤ) ≤ v.toInt / m := Int.le_ediv_of_mul_le (by omega) (by omega)
        have hlt : v.toInt / m < 2 ^ 126 := Int.ediv_lt_of_lt_mul (by omega) (by omega)
        omega
    rw [BitVec.toInt_add, BitVec.toInt_sshiftRight, BitVec.toInt_signExtend_of_le hw, hone,
      Int.shiftRight_eq_div_pow, hpow]
    exact Int.bmod_eq_of_le (by omega) (by omega)

end Shifts

/-- The signed byte -3 shifted by one, to nearest even: -2. -/
theorem shift_round_exact_byte :
    (((0xFD#8).signExtend 128).sshiftRight 1 +
      roundIncr ((0xFD#8).setWidth 128) 1 (vxrmOf .nearestEven)).toInt =
        RoundingMode.nearestEven.round (((0xFD#8).toInt : ℚ) / 2 ^ 1) :=
  (shift_round_exact (by decide) 0xFD#8 (by decide) (by decide) .nearestEven).2

end Rax.Riscv

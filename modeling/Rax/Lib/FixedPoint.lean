import Mathlib.Algebra.Order.Floor.Ring
import Mathlib.Algebra.Ring.Int.Parity
import Mathlib.Data.Rat.Floor
import Mathlib.Tactic.FieldSimp
import Mathlib.Tactic.Linarith

/-!
# Rounding a quotient by a power of two

Rounding is defined on rational numbers. Of an integer divided by a power of two, the discarded
remainder and the parity of the quotient say whether one is added to the quotient.
-/

namespace Rax

inductive RoundingMode where
  | nearestUp
  | nearestEven
  | down
  | odd
  deriving DecidableEq

namespace RoundingMode

/-- A rational number rounded to an integer. To odd, a number that is none goes to the odd one of
its neighbours. -/
def round : RoundingMode → ℚ → ℤ
  | nearestUp, q => ⌊q + 1 / 2⌋
  | nearestEven, q =>
    if q - ⌊q⌋ < 1 / 2 ∨ (q - ⌊q⌋ = 1 / 2 ∧ Even ⌊q⌋) then ⌊q⌋ else ⌊q⌋ + 1
  | down, q => ⌊q⌋
  | odd, q => if q = ⌊q⌋ ∨ Odd ⌊q⌋ then ⌊q⌋ else ⌊q⌋ + 1

/-- One is added, for a remainder of a division by `2 * half` and the parity of the quotient. -/
def roundsUp (half r : ℤ) (isOdd : Bool) : RoundingMode → Bool
  | nearestUp => half ≤ r
  | nearestEven => half < r ∨ (r = half ∧ isOdd)
  | down => false
  | odd => r ≠ 0 ∧ !isOdd

theorem round_intCast (mode : RoundingMode) (n : ℤ) : mode.round n = n := by
  cases mode with
  | nearestUp =>
    change ⌊(n : ℚ) + 1 / 2⌋ = n
    rw [Int.floor_eq_iff]
    constructor <;> linarith
  | nearestEven => simp [round]
  | down => exact Int.floor_intCast n
  | odd => simp [round]

/-- The parity of a quotient, from the dividend modulo twice the divisor. -/
theorem ediv_emod_two (n : ℤ) {m : ℤ} (hm : 0 < m) : n / m % 2 = n % (2 * m) / m % 2 := by
  have hsplit : n / m = n % (2 * m) / m + 2 * (n / (2 * m)) := by
    conv_lhs => rw [← Int.emod_add_mul_ediv n (2 * m)]
    rw [show 2 * m * (n / (2 * m)) = m * (2 * (n / (2 * m))) by ring,
      Int.add_mul_ediv_left _ _ hm.ne']
  rw [hsplit, Int.add_mul_emod_self_left]

variable {n half : ℤ} (hpos : 0 < half)

include hpos

theorem floor_div : ⌊(n : ℚ) / (2 * half)⌋ = n / (2 * half) := by
  have hcast : ((2 * half : ℤ) : ℚ) = 2 * (half : ℚ) := by push_cast; ring
  obtain ⟨m, hm⟩ : ∃ m : ℕ, (m : ℤ) = 2 * half := ⟨(2 * half).toNat, Int.toNat_of_nonneg (by omega)⟩
  rw [← hcast, ← hm]
  exact Rat.floor_intCast_div_natCast n m

theorem fract_div :
    (2 * (half : ℚ)) * ((n : ℚ) / (2 * half) - ⌊(n : ℚ) / (2 * half)⌋) =
      ((n % (2 * half) : ℤ) : ℚ) := by
  have hne : (half : ℚ) ≠ 0 := by exact_mod_cast hpos.ne'
  have hdiv : ((2 * half * (n / (2 * half)) + n % (2 * half) : ℤ) : ℚ) = n := by
    rw [Int.mul_ediv_add_emod]
  push_cast at hdiv
  rw [floor_div hpos, mul_sub, mul_div_cancel₀ _ (by simpa using hne)]
  linarith

/-- Rounding the quotient is adding one to its floor where the remainder says so. -/
theorem round_div (mode : RoundingMode) :
    mode.round ((n : ℚ) / (2 * half)) = n / (2 * half) +
      if roundsUp half (n % (2 * half)) (Odd (n / (2 * half))) mode then 1 else 0 := by
  have hfract := fract_div (n := n) hpos
  have hfloor := floor_div (n := n) hpos
  have hhalf : (0 : ℚ) < half := by exact_mod_cast hpos
  generalize hq : (n : ℚ) / (2 * half) = q at hfract hfloor ⊢
  generalize hr : n % (2 * half) = r at *
  rw [← hfloor]
  have hlt : q - ⌊q⌋ < 1 / 2 ↔ r < half := by
    rw [← Int.cast_lt (R := ℚ), ← hfract]
    constructor <;> intro h <;> nlinarith
  have heq : q - ⌊q⌋ = 1 / 2 ↔ r = half := by
    rw [← Int.cast_inj (α := ℚ), ← hfract]
    constructor <;> intro h
    · rw [h]
      ring
    · nlinarith
  have hzero : q = ⌊q⌋ ↔ r = 0 := by
    rw [← Int.cast_inj (α := ℚ), ← hfract, Int.cast_zero, mul_eq_zero]
    constructor
    · intro h
      exact .inr (by linarith)
    · rintro (h | h)
      · linarith
      · linarith
  have hge := Int.floor_le q
  have hup := Int.lt_floor_add_one q
  cases mode with
  | nearestUp =>
    change ⌊q + 1 / 2⌋ = _
    by_cases h : half ≤ r
    · rw [if_pos (by simpa [roundsUp] using h), Int.floor_eq_iff]
      have := mt hlt.mp (not_lt.mpr h)
      push_cast
      constructor <;> linarith
    · rw [if_neg (by simpa [roundsUp] using h), Int.floor_eq_iff]
      have := hlt.mpr (not_le.mp h)
      push_cast
      constructor <;> linarith
  | nearestEven =>
    change (if _ then _ else _) = _
    simp only [hlt, heq, roundsUp, ← Int.not_even_iff_odd, decide_eq_true_eq]
    generalize ⌊q⌋ = f
    by_cases heven : Even f
    · simp only [heven, and_true, not_true, and_false, or_false]
      split_ifs <;> first | rfl | omega
    · simp only [heven, and_false, or_false, not_false_eq_true, and_true]
      split_ifs <;> first | rfl | omega
  | down =>
    change ⌊q⌋ = _
    rw [roundsUp, if_neg Bool.false_ne_true, add_zero]
  | odd =>
    change (if _ then _ else _) = _
    simp only [hzero, roundsUp, decide_eq_true_eq, Bool.not_eq_true', decide_eq_false_iff_not]
    generalize ⌊q⌋ = f
    by_cases hodd : Odd f
    · simp [hodd]
    · simp only [hodd, or_false, not_false_eq_true, and_true]
      split_ifs <;> first | rfl | omega

end RoundingMode

end Rax

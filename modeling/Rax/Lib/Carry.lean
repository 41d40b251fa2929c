import Mathlib.Tactic.Common
import Mathlib.Algebra.Order.Ring.Int

/-!
# Addition and subtraction with carry

Sums and differences of bit vectors with a carry or borrow coming in, against the same
operations on unbounded integers: when the unsigned result wraps, when the signed result is
out of range, and when a carry leaves one of the lower bits.
-/

namespace Rax

variable {w : Nat}

/-- Sum with a carry in. -/
def addc (x y : BitVec w) (c : Bool) : BitVec w := x + y + (BitVec.ofBool c).setWidth w

/-- Difference with a borrow in. -/
def subc (x y : BitVec w) (c : Bool) : BitVec w := x - y - (BitVec.ofBool c).setWidth w

theorem toNat_carryIn (hw : 0 < w) (c : Bool) :
    ((BitVec.ofBool c).setWidth w).toNat = c.toNat := by
  have hone : 1 < 2 ^ w := Nat.one_lt_two_pow (by omega)
  cases c with
  | false => simp
  | true => simpa using Nat.mod_eq_of_lt hone

theorem toNat_addc (hw : 0 < w) (x y : BitVec w) (c : Bool) :
    (addc x y c).toNat = (x.toNat + y.toNat + c.toNat) % 2 ^ w := by
  rw [addc, BitVec.toNat_add, BitVec.toNat_add, toNat_carryIn hw, Nat.mod_add_mod]

theorem toNat_subc (hw : 0 < w) (x y : BitVec w) (c : Bool) :
    (subc x y c).toNat =
      if y.toNat + c.toNat ≤ x.toNat then x.toNat - (y.toNat + c.toNat)
      else 2 ^ w + x.toNat - (y.toNat + c.toNat) := by
  have hx := x.isLt
  have hy := y.isLt
  have hone : 1 < 2 ^ w := Nat.one_lt_two_pow (by omega)
  have hc := Bool.toNat_le c
  rw [subc, BitVec.toNat_sub, BitVec.toNat_sub, toNat_carryIn hw, Nat.add_mod_mod]
  split
  · rw [show 2 ^ w - c.toNat + (2 ^ w - y.toNat + x.toNat) =
        x.toNat - (y.toNat + c.toNat) + 2 ^ w * 2 by omega, Nat.add_mul_mod_self_left,
      Nat.mod_eq_of_lt (by omega)]
  · rw [show 2 ^ w - c.toNat + (2 ^ w - y.toNat + x.toNat) =
        2 ^ w + x.toNat - (y.toNat + c.toNat) + 2 ^ w by omega, Nat.add_mod_right,
      Nat.mod_eq_of_lt (by omega)]

/-- A carry leaves the sum exactly if the result falls below a term, or meets it with a carry
coming in. -/
theorem addc_carry_iff (hw : 0 < w) (x y : BitVec w) (c : Bool) :
    ((addc x y c).toNat < x.toNat ∨ c = true ∧ (addc x y c).toNat = x.toNat) ↔
      2 ^ w ≤ x.toNat + y.toNat + c.toNat := by
  have hx := x.isLt
  have hy := y.isLt
  rw [toNat_addc hw]
  have hlt : x.toNat + y.toNat + c.toNat < 2 ^ w + 2 ^ w := by
    have := Bool.toNat_le c
    omega
  rcases Nat.lt_or_ge (x.toNat + y.toNat + c.toNat) (2 ^ w) with hin | hout
  · rw [Nat.mod_eq_of_lt hin]
    cases c <;> simp at hin ⊢ <;> omega
  · rw [Nat.mod_eq_sub_mod hout, Nat.mod_eq_of_lt (by omega)]
    cases c <;> simp at hout ⊢ <;> omega

/-- A borrow is needed exactly if the first term is smaller, or equal with a borrow coming in. -/
theorem subc_borrow_iff (x y : BitVec w) (c : Bool) :
    (x.toNat < y.toNat ∨ c = true ∧ x.toNat = y.toNat) ↔ x.toNat < y.toNat + c.toNat := by
  cases c with
  | false => simp
  | true =>
    simp
    omega

theorem toInt_cases {n : Nat} (x : BitVec (n + 1)) :
    x.msb = false ∧ x.toNat < 2 ^ n ∧ x.toInt = x.toNat ∨
      x.msb = true ∧ 2 ^ n ≤ x.toNat ∧ x.toInt = (x.toNat : Int) - 2 * ((2 ^ n : Nat) : Int) := by
  have hmsb : x.msb = decide (2 ^ n ≤ x.toNat) := BitVec.msb_eq_decide x
  have hpow : 2 ^ (n + 1) = 2 * 2 ^ n := by rw [Nat.pow_succ, Nat.mul_comm]
  have hint := BitVec.toInt_eq_msb_cond x
  by_cases h : 2 ^ n ≤ x.toNat
  · rw [decide_eq_true h] at hmsb
    rw [hmsb, if_pos rfl, hpow] at hint
    push_cast at hint ⊢
    exact Or.inr ⟨hmsb, h, hint⟩
  · rw [decide_eq_false h] at hmsb
    rw [hmsb, if_neg (by decide)] at hint
    exact Or.inl ⟨hmsb, by omega, hint⟩

theorem toInt_not (hw : 0 < w) (x : BitVec w) : (~~~x).toInt = -x.toInt - 1 := by
  have hx := x.isLt
  have hcast : ((2 ^ w : Nat) : Int) = 2 ^ w := by push_cast; rfl
  rw [BitVec.toInt_eq_msb_cond, BitVec.toInt_eq_msb_cond, BitVec.msb_not, decide_eq_true hw,
    Bool.true_and, BitVec.toNat_not]
  cases x.msb <;> simp <;> omega

/-- The signed sum leaves the range exactly if the terms agree in sign and the result does not. -/
theorem addc_overflow_iff (hw : 0 < w) (x y : BitVec w) (c : Bool) :
    (x.msb ≠ (addc x y c).msb ∧ y.msb ≠ (addc x y c).msb) ↔
      x.toInt + y.toInt + c.toNat < -2 ^ (w - 1) ∨ 2 ^ (w - 1) ≤ x.toInt + y.toInt + c.toNat := by
  obtain ⟨n, rfl⟩ : ∃ n, w = n + 1 := ⟨w - 1, by omega⟩
  have hsum := toNat_addc hw x y c
  have hpow : 2 ^ (n + 1) = 2 * 2 ^ n := by rw [Nat.pow_succ, Nat.mul_comm]
  have hc := Bool.toNat_le c
  have hx := x.isLt
  have hy := y.isLt
  have hcast : ((2 : Int) ^ n) = ((2 ^ n : Nat) : Int) := by push_cast; rfl
  rw [Nat.add_sub_cancel, hcast]
  have hmod : (addc x y c).toNat = x.toNat + y.toNat + c.toNat ∨
      (addc x y c).toNat + 2 ^ (n + 1) = x.toNat + y.toNat + c.toNat := by
    rw [hsum]
    rcases Nat.lt_or_ge (x.toNat + y.toNat + c.toNat) (2 ^ (n + 1)) with hin | hout
    · exact Or.inl (Nat.mod_eq_of_lt hin)
    · rw [Nat.mod_eq_sub_mod hout, Nat.mod_eq_of_lt (by omega)]
      omega
  generalize addc x y c = r at hmod ⊢
  have hr := r.isLt
  rcases toInt_cases x with ⟨mx, bx, ix⟩ | ⟨mx, bx, ix⟩ <;>
    rcases toInt_cases y with ⟨my, by', iy⟩ | ⟨my, by', iy⟩ <;>
    rcases toInt_cases r with ⟨mr, br, -⟩ | ⟨mr, br, -⟩ <;>
    simp only [mx, my, mr, ix, iy, ne_eq, not_true_eq_false, not_false_eq_true, and_self,
      and_true, and_false, Bool.false_eq_true, Bool.true_eq_false, true_iff, false_iff] <;>
    omega

/-- A difference is a sum with the complement. -/
theorem subc_eq_addc (hw : 0 < w) (x y : BitVec w) (c : Bool) :
    subc x y c = addc x (~~~y) (!c) := by
  have hx := x.isLt
  have hy := y.isLt
  have hc : (!c).toNat + c.toNat = 1 := by cases c <;> rfl
  refine BitVec.eq_of_toNat_eq ?_
  rw [toNat_subc hw, toNat_addc hw, BitVec.toNat_not]
  split
  · rw [show x.toNat + (2 ^ w - 1 - y.toNat) + (!c).toNat =
        x.toNat - (y.toNat + c.toNat) + 2 ^ w by omega, Nat.add_mod_right,
      Nat.mod_eq_of_lt (by omega)]
  · rw [Nat.mod_eq_of_lt (by omega)]
    omega

/-- The signed difference leaves the range exactly if the terms differ in sign and the result
has not the sign of the first. -/
theorem subc_overflow_iff (hw : 0 < w) (x y : BitVec w) (c : Bool) :
    (x.msb ≠ y.msb ∧ x.msb ≠ (subc x y c).msb) ↔
      x.toInt - y.toInt - c.toNat < -2 ^ (w - 1) ∨ 2 ^ (w - 1) ≤ x.toInt - y.toInt - c.toNat := by
  have hadd := addc_overflow_iff hw x (~~~y) (!c)
  have hmsb : (~~~y).msb = !y.msb := by rw [BitVec.msb_not, decide_eq_true hw, Bool.true_and]
  have hint : x.toInt + (~~~y).toInt + (!c).toNat = x.toInt - y.toInt - c.toNat := by
    have hc : (!c).toNat + c.toNat = 1 := by cases c <;> rfl
    rw [toInt_not hw]
    omega
  rw [← subc_eq_addc hw, hmsb, hint] at hadd
  rw [← hadd]
  cases x.msb <;> cases y.msb <;> cases (subc x y c).msb <;> decide

/-- Bit `i` of the sum differs from the bits of the terms by the carry out of the bits below. -/
theorem addc_bit {i : Nat} (hi : i < w) (x y : BitVec w) (c : Bool) :
    (x.getLsbD i ^^ y.getLsbD i ^^ (addc x y c).getLsbD i) =
      decide (2 ^ i ≤ x.toNat % 2 ^ i + y.toNat % 2 ^ i + c.toNat) := by
  rw [addc, BitVec.getLsbD_add_add_bool hi, BitVec.carry]
  cases x.getLsbD i <;> cases y.getLsbD i <;> simp

/-- Bit `i` of the difference differs from the bits of the terms by the borrow of the bits
below. -/
theorem subc_bit {i : Nat} (hi : i < w) (x y : BitVec w) (c : Bool) :
    (x.getLsbD i ^^ y.getLsbD i ^^ (subc x y c).getLsbD i) =
      decide (x.toNat % 2 ^ i < y.toNat % 2 ^ i + c.toNat) := by
  have hadd := addc_bit hi x (~~~y) (!c)
  have hlow : (~~~y).toNat % 2 ^ i + y.toNat % 2 ^ i + 1 = 2 ^ i := by
    have hpos : 0 < 2 ^ i := Nat.two_pow_pos i
    have hmod := Nat.mod_lt y.toNat hpos
    rw [← BitVec.toNat_setWidth, BitVec.setWidth_not (Nat.le_of_lt hi), BitVec.toNat_not,
      BitVec.toNat_setWidth]
    omega
  have hc : (!c).toNat + c.toNat = 1 := by cases c <;> rfl
  rw [← subc_eq_addc (by omega), BitVec.getLsbD_not, decide_eq_true hi, Bool.true_and] at hadd
  have hflip : (x.getLsbD i ^^ y.getLsbD i ^^ (subc x y c).getLsbD i) =
      !(x.getLsbD i ^^ !y.getLsbD i ^^ (subc x y c).getLsbD i) := by
    cases x.getLsbD i <;> cases y.getLsbD i <;> cases (subc x y c).getLsbD i <;> rfl
  rw [hflip, hadd, ← decide_not, decide_eq_decide]
  omega

end Rax

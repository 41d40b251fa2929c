import Mathlib
import Rax.Lib.Bits

/-!
# Carry-less products

A word is the polynomial over the field of two elements whose coefficients are its bits. The
schoolbook product without carries is the product of the polynomials, and each of its bits is a
parity.
-/

namespace Rax

open Polynomial

/-! ## Parities -/

/-- The exclusive or of a function over a list. -/
def parity (f : Nat → Bool) : List Nat → Bool
  | [] => false
  | i :: l => f i ^^ parity f l

theorem parity_congr {f g : Nat → Bool} {l : List Nat} (h : ∀ i ∈ l, f i = g i) :
    parity f l = parity g l := by
  induction l with
  | nil => rfl
  | cons i l ih =>
    obtain ⟨hi, hl⟩ := List.forall_mem_cons.mp h
    rw [parity, parity, hi, ih hl]

theorem parity_append (f : Nat → Bool) (l m : List Nat) :
    parity f (l ++ m) = (parity f l ^^ parity f m) := by
  induction l with
  | nil => simp [parity]
  | cons i l ih => rw [List.cons_append, parity, parity, ih, Bool.xor_assoc]

theorem parity_map_succ (f : Nat → Bool) (l : List Nat) :
    parity f (l.map Nat.succ) = parity (fun i => f (i + 1)) l := by
  induction l with
  | nil => rfl
  | cons i l ih => rw [List.map_cons, parity, parity, ih]

theorem parity_reflect (f : Nat → Bool) (n : Nat) :
    parity (fun i => f (n - 1 - i)) (List.range n) = parity f (List.range n) := by
  induction n with
  | zero => rfl
  | succ n ih =>
    have hshift : parity (fun i => f (n + 1 - 1 - (i + 1))) (List.range n) =
        parity (fun i => f (n - 1 - i)) (List.range n) :=
      parity_congr fun i _ => congrArg f (by omega)
    rw [List.range_succ_eq_map, parity, parity_map_succ, hshift, ih, ← List.range_succ_eq_map,
      List.range_succ, parity_append, Bool.xor_comm]
    simp [parity]

/-! ## Loops that add without carries -/

section Loop

variable {v w : Nat}

/-- Terms added without carries, where a bit of `b` is set. -/
def xorLoop (b : BitVec v) (term : Nat → BitVec w) (l : List Nat) : BitVec w :=
  l.foldl (fun out i => if b.getLsbD i then out ^^^ term i else out) 0

theorem getLsbD_xorLoop (b : BitVec v) (term : Nat → BitVec w) (l : List Nat) (k : Nat) :
    (xorLoop b term l).getLsbD k = parity (fun i => b.getLsbD i && (term i).getLsbD k) l := by
  have hfold (out : BitVec w) :
      (l.foldl (fun out i => if b.getLsbD i then out ^^^ term i else out) out).getLsbD k =
        (out.getLsbD k ^^ parity (fun i => b.getLsbD i && (term i).getLsbD k) l) := by
    induction l generalizing out with
    | nil => simp [parity]
    | cons i l ih =>
      rw [List.foldl_cons, ih, parity]
      cases b.getLsbD i with
      | false => simp
      | true => simp
  rw [xorLoop, hfold]
  simp

end Loop

/-! ## Polynomials -/

section Product

variable {w : Nat}

/-- The polynomial of a word. -/
noncomputable def toPoly (x : BitVec w) : (ZMod 2)[X] :=
  ∑ i ∈ Finset.range w, if x.getLsbD i then X ^ i else 0

theorem coeff_toPoly (x : BitVec w) (k : Nat) :
    (toPoly x).coeff k = if x.getLsbD k then 1 else 0 := by
  rw [toPoly, finsetSum_coeff]
  have hterm : ∀ i, (if x.getLsbD i then (X : (ZMod 2)[X]) ^ i else 0).coeff k =
      if k = i then if x.getLsbD i then 1 else 0 else 0 := by
    intro i
    split
    · rw [coeff_X_pow]
    · simp
  simp only [hterm]
  rw [Finset.sum_ite_eq]
  by_cases hk : k < w
  · rw [if_pos (Finset.mem_range.mpr hk)]
  · rw [if_neg (by simpa using hk), BitVec.getLsbD_of_ge x k (by omega)]
    rfl

theorem toPoly_xor (x y : BitVec w) : toPoly (x ^^^ y) = toPoly x + toPoly y := by
  ext k
  rw [coeff_add, coeff_toPoly, coeff_toPoly, coeff_toPoly, BitVec.getLsbD_xor]
  cases x.getLsbD k <;> cases y.getLsbD k <;> decide

theorem toPoly_zero : toPoly (0 : BitVec w) = 0 := by
  ext k
  rw [coeff_toPoly, BitVec.ofNat_eq_ofNat, BitVec.getLsbD_zero]
  rfl

/-- The product of two words without carries. -/
def carrylessProduct (a b : BitVec w) : BitVec (2 * w) :=
  xorLoop b (fun i => a.setWidth (2 * w) <<< i) (List.range w)

theorem toPoly_shifted (a : BitVec w) {i : Nat} (hi : i < w) :
    toPoly (a.setWidth (2 * w) <<< i) = toPoly a * X ^ i := by
  ext k
  rw [coeff_toPoly, coeff_mul_X_pow', coeff_toPoly, BitVec.getLsbD_shiftLeft,
    BitVec.getLsbD_setWidth]
  by_cases hik : i ≤ k
  · by_cases hk : k - i < w
    · simp [hik, show k < 2 * w by omega, show ¬k < i by omega, show k - i < 2 * w by omega]
    · rw [BitVec.getLsbD_of_ge a (k - i) (by omega)]
      simp
  · simp [hik, show k < i by omega]

theorem toPoly_carrylessProduct (a b : BitVec w) :
    toPoly (carrylessProduct a b) = toPoly a * toPoly b := by
  have hupTo : ∀ n ≤ w, toPoly (xorLoop b (fun i => a.setWidth (2 * w) <<< i) (List.range n)) =
      ∑ i ∈ Finset.range n, if b.getLsbD i then toPoly a * X ^ i else 0 := by
    intro n hn
    induction n with
    | zero => exact toPoly_zero
    | succ n ih =>
      rw [xorLoop, List.range_succ, List.foldl_append, Finset.sum_range_succ, ← ih (by omega)]
      change toPoly (if b.getLsbD n then _ else _) = _
      split
      · rw [toPoly_xor, toPoly_shifted a (by omega)]
        rfl
      · rw [add_zero]
        rfl
  rw [carrylessProduct, hupTo w (Nat.le_refl w), toPoly.eq_def b, Finset.mul_sum]
  refine Finset.sum_congr rfl fun i _ => ?_
  split
  · rfl
  · rw [mul_zero]

theorem getLsbD_carrylessProduct (a b : BitVec w) {k : Nat} (hk : k < 2 * w) :
    (carrylessProduct a b).getLsbD k =
      parity (fun i => b.getLsbD i && (decide (i ≤ k) && a.getLsbD (k - i))) (List.range w) := by
  rw [carrylessProduct, getLsbD_xorLoop]
  refine parity_congr fun i hi => ?_
  rw [BitVec.getLsbD_shiftLeft, BitVec.getLsbD_setWidth]
  by_cases hik : i ≤ k
  · simp [hik, hk, show ¬k < i by omega, show k - i < 2 * w by omega]
  · simp [hik, show k < i by omega]

end Product

end Rax

import Mathlib.Algebra.Order.Ring.Int

/-!
# Distances on a circle of machine words

A free-running counter goes round. How far one value is ahead of another is their wrapped
difference, and a window from one value to a later one holds the values that are passed on the way.
-/

namespace Rax

variable {w : Nat} {a b c : BitVec w}

/-- How many steps up it is from one value to another. -/
def ahead (a b : BitVec w) : Nat := (b - a).toNat

/-- The values passed on the way from one value to another, the last one included. -/
def InWindow (a b c : BitVec w) : Prop := 0 < ahead a c ∧ ahead a c ≤ ahead a b

theorem ahead_lt (a b : BitVec w) : ahead a b < 2 ^ w := BitVec.isLt _

theorem add_ahead (a b : BitVec w) : a + BitVec.ofNat w (ahead a b) = b := by
  rw [ahead, BitVec.ofNat_toNat, BitVec.setWidth_eq, BitVec.add_comm, BitVec.sub_add_cancel]

theorem ahead_add (a : BitVec w) {n : Nat} (h : n < 2 ^ w) :
    ahead a (a + BitVec.ofNat w n) = n := by
  rw [ahead, BitVec.add_comm, BitVec.add_sub_cancel, BitVec.toNat_ofNat, Nat.mod_eq_of_lt h]

theorem ahead_eq_iff {n : Nat} (h : n < 2 ^ w) : ahead a b = n ↔ b = a + BitVec.ofNat w n := by
  constructor
  · rintro rfl
    exact (add_ahead a b).symm
  · rintro rfl
    exact ahead_add a h

theorem ahead_add_ahead (h : ahead a b ≤ ahead a c) : ahead a b + ahead b c = ahead a c := by
  have hb := add_ahead a b
  have hlt : ahead a c - ahead a b < 2 ^ w := Nat.lt_of_le_of_lt (Nat.sub_le _ _) (ahead_lt a c)
  have hc : c = b + BitVec.ofNat w (ahead a c - ahead a b) := by
    rw [← hb, BitVec.add_assoc, ← BitVec.ofNat_add, ahead_add a (ahead_lt a b),
      Nat.add_sub_cancel' h, add_ahead]
  have hbc : ahead b c = ahead a c - ahead a b := (ahead_eq_iff hlt).mpr hc
  omega

/-- A value that is not passed is as much closer as the way was long. -/
theorem ahead_of_not_inWindow (hpos : 0 < ahead a c) (h : ¬InWindow a b c) :
    0 < ahead b c ∧ ahead a b + ahead b c = ahead a c := by
  have hlt : ahead a b < ahead a c := by
    by_contra hle
    exact h ⟨hpos, Nat.le_of_not_lt hle⟩
  have := ahead_add_ahead (Nat.le_of_lt hlt)
  omega

end Rax

import Rax.Lib.Word

/-!
# Flat bounds-checked memory

Bytes at addresses from zero up to a size, with little-endian loads and stores that fail as a
whole when they do not fit. A store is read back by a load of the same bytes and does not
disturb loads of other ones.
-/

namespace Rax

structure FlatMem where
  size : Nat
  byte : Nat → Byte

namespace FlatMem

variable {m m' : FlatMem} {a b : Word} {i j k n v : Nat}

/-- `n` bytes at `a` lie inside the memory, and their end is an address. -/
def Fits (m : FlatMem) (a : Word) (n : Nat) : Prop :=
  a.toNat + n ≤ m.size ∧ a.toNat + n < 2 ^ 64

instance : Decidable (m.Fits a n) := inferInstanceAs (Decidable (_ ∧ _))

/-- Little-endian value of `n` bytes. -/
def value (m : FlatMem) : Nat → Nat → Nat
  | _, 0 => 0
  | i, n + 1 => (m.byte i).toNat + 256 * m.value (i + 1) n

/-- Replace `n` bytes by those of a value. -/
def put (m : FlatMem) (i n v : Nat) : FlatMem :=
  { m with byte := fun x =>
      if i ≤ x ∧ x < i + n then BitVec.ofNat 8 (v / 256 ^ (x - i)) else m.byte x }

def load (m : FlatMem) (a : Word) (n : Nat) : Option Nat :=
  if m.Fits a n then some (m.value a.toNat n) else none

/-- A store, with whether it fitted. -/
def store (m : FlatMem) (a : Word) (n v : Nat) : FlatMem × Bool :=
  if m.Fits a n then (m.put a.toNat n v, true) else (m, false)

/-- Two memories agree on `n` bytes. -/
def SameAt (m m' : FlatMem) (i n : Nat) : Prop := ∀ x, i ≤ x → x < i + n → m.byte x = m'.byte x

theorem value_congr (h : SameAt m m' i n) : m.value i n = m'.value i n := by
  induction n generalizing i with
  | zero => rfl
  | succ n ih =>
    have htail : SameAt m m' (i + 1) n := fun x hx hlt => h x (by omega) (by omega)
    rw [value, value, ih htail, h i (Nat.le_refl i) (by omega)]

theorem value_put_digits (hk : k + j ≤ n) :
    (m.put i n v).value (i + k) j = v / 256 ^ k % 256 ^ j := by
  induction j generalizing k with
  | zero => simp [value, Nat.mod_one]
  | succ j ih =>
    have hin : i ≤ i + k ∧ i + k < i + n := by omega
    have hbyte : ((m.put i n v).byte (i + k)).toNat = v / 256 ^ k % 256 := by
      simp only [put, hin, and_self, if_true, BitVec.toNat_ofNat]
      rw [Nat.add_sub_cancel_left]
    rw [value, hbyte, Nat.add_assoc, ih (by omega), Nat.pow_succ, ← Nat.div_div_eq_div_mul,
      Nat.pow_succ, Nat.mul_comm (256 ^ j), Nat.mod_mul]

theorem value_put_same : (m.put i n v).value i n = v % 256 ^ n := by
  simpa using value_put_digits (m := m) (i := i) (v := v) (k := 0) (Nat.le_of_eq (Nat.zero_add n))

theorem sameAt_put (h : j + k ≤ i ∨ i + n ≤ j) : SameAt (m.put i n v) m j k := by
  intro x hx hlt
  have hout : ¬ (i ≤ x ∧ x < i + n) := by omega
  simp only [put, hout, if_false]

theorem value_put_of_disjoint (h : j + k ≤ i ∨ i + n ≤ j) :
    (m.put i n v).value j k = m.value j k := value_congr (sameAt_put h)

theorem store_of_fits (h : m.Fits a n) : m.store a n v = (m.put a.toNat n v, true) := by
  rw [store, if_pos h]

end FlatMem

end Rax

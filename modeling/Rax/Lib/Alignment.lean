import Mathlib.Data.Nat.Prime.Basic
import Rax.Lib.Word

/-!
# Alignment of wrapping words

An alignment is a number that a word is a multiple of. Wrapping arithmetic does not keep
arbitrary divisors, so only the part of an alignment that divides a power of two is counted.
For that part, taking greatest common divisors over-approximates every operation, also when
the alignment itself is not a power of two.
-/

namespace Rax

variable {w k a b : Nat}

/-- The word is a multiple of the alignment, as far as the alignment divides `2 ^ k`. -/
def Aligned (k a : Nat) (v : BitVec w) : Prop := Nat.gcd a (2 ^ k) ∣ v.toNat

namespace Aligned

/-- Wrapping keeps multiples of what divides the modulus. -/
private theorem dvd_wrap (hk : k ≤ w) (n : Nat) :
    Nat.gcd a (2 ^ k) ∣ n % 2 ^ w ↔ Nat.gcd a (2 ^ k) ∣ n :=
  Nat.dvd_mod_iff ((Nat.gcd_dvd_right a _).trans (Nat.pow_dvd_pow 2 hk))

theorem of_dvd {v : BitVec w} (h : Aligned k a v) (hb : b ∣ a) : Aligned k b v :=
  (Nat.gcd_dvd_gcd_of_dvd_left (2 ^ k) hb).trans h

theorem congr {v v' : BitVec w} (h : v.toNat % 2 ^ k = v'.toNat % 2 ^ k) :
    Aligned k a v ↔ Aligned k a v' := by
  have hmod (x : BitVec w) : Aligned k a x ↔ Nat.gcd a (2 ^ k) ∣ x.toNat % 2 ^ k :=
    (Nat.dvd_mod_iff (Nat.gcd_dvd_right a _)).symm
  rw [hmod, hmod, h]

theorem of_toNat_dvd {v : BitVec w} (h : a ∣ v.toNat) : Aligned k a v :=
  (Nat.gcd_dvd_left a _).trans h

theorem zero (k a : Nat) : Aligned k a (0 : BitVec w) := by
  rw [Aligned, show (0 : BitVec w).toNat = 0 from BitVec.toNat_zero]
  exact Nat.dvd_zero _

/-- A word is aligned to the magnitude of the signed number it stands for. -/
theorem natAbs_toInt (hk : k ≤ w) (v : BitVec w) : Aligned k v.toInt.natAbs v := by
  have habs : ((Nat.gcd v.toInt.natAbs (2 ^ k) : Nat) : Int) ∣ v.toInt :=
    Int.natCast_dvd.mpr (Nat.gcd_dvd_left _ _)
  have hmod : ((Nat.gcd v.toInt.natAbs (2 ^ k) : Nat) : Int) ∣ ((2 ^ w : Nat) : Int) :=
    Int.natCast_dvd_natCast.mpr ((Nat.gcd_dvd_right _ _).trans (Nat.pow_dvd_pow 2 hk))
  have hcases : v.toInt = v.toNat ∨ v.toInt = v.toNat - (2 ^ w : Nat) := by
    rw [BitVec.toInt_eq_toNat_cond]
    split
    · exact Or.inl rfl
    · exact Or.inr rfl
  refine Int.natCast_dvd_natCast.mp ?_
  rcases hcases with h | h
  · rwa [← h]
  · rw [show (v.toNat : Int) = v.toInt + (2 ^ w : Nat) by omega]
    exact Int.dvd_add habs hmod

/-- An alignment that is a multiple of a small power of two gives that power. -/
theorem two_pow_dvd {v : BitVec w} {n : Nat} (h : Aligned k a v) (hn : n ≤ k) (ha : 2 ^ n ∣ a) :
    2 ^ n ∣ v.toNat :=
  (Nat.dvd_gcd ha (Nat.pow_dvd_pow 2 hn)).trans h

theorem add {x y : BitVec w} (hk : k ≤ w) (hx : Aligned k a x) (hy : Aligned k b y) :
    Aligned k (Nat.gcd a b) (x + y) := by
  have hx' := hx.of_dvd (Nat.gcd_dvd_left a b)
  have hy' := hy.of_dvd (Nat.gcd_dvd_right a b)
  rw [Aligned, BitVec.toNat_add, dvd_wrap hk]
  exact Nat.dvd_add hx' hy'

theorem sub {x y : BitVec w} (hk : k ≤ w) (hx : Aligned k a x) (hy : Aligned k b y) :
    Aligned k (Nat.gcd a b) (x - y) := by
  have hx' := hx.of_dvd (Nat.gcd_dvd_left a b)
  have hy' := hy.of_dvd (Nat.gcd_dvd_right a b)
  have hw : Nat.gcd (Nat.gcd a b) (2 ^ k) ∣ 2 ^ w :=
    (Nat.gcd_dvd_right _ _).trans (Nat.pow_dvd_pow 2 hk)
  rw [Aligned, BitVec.toNat_sub, dvd_wrap hk]
  exact Nat.dvd_add (Nat.dvd_sub hw hy') hx'

/-- Scaling scales the alignment. -/
private theorem dvd_scale {x : BitVec w} (hx : Aligned k a x) (n : Nat) :
    Nat.gcd (a * n) (2 ^ k) ∣ x.toNat * n := by
  have hgcd : Nat.gcd (a * n) (2 ^ k) ∣ Nat.gcd (a * n) (2 ^ k * n) :=
    Nat.gcd_dvd_gcd_of_dvd_right (a * n) (Nat.dvd_mul_right _ n)
  rw [Nat.gcd_mul_right] at hgcd
  exact hgcd.trans (Nat.mul_dvd_mul_right hx n)

theorem mul {x : BitVec w} (hk : k ≤ w) (hx : Aligned k a x) (n : Nat) :
    Aligned k (a * n) (x * BitVec.ofNat w n) := by
  rw [Aligned, BitVec.toNat_mul, BitVec.toNat_ofNat, Nat.mul_mod_mod, dvd_wrap hk]
  exact dvd_scale hx n

theorem shiftLeft {x : BitVec w} (hk : k ≤ w) (hx : Aligned k a x) (n : Nat) :
    Aligned k (a * 2 ^ n) (x <<< n) := by
  rw [Aligned, BitVec.toNat_shiftLeft, Nat.shiftLeft_eq, dvd_wrap hk]
  exact dvd_scale hx (2 ^ n)

theorem and_left {x : BitVec w} (hx : Aligned k a x) (y : BitVec w) : Aligned k a (x &&& y) := by
  obtain ⟨n, -, hn⟩ := (Nat.dvd_prime_pow Nat.prime_two).mp (Nat.gcd_dvd_right a (2 ^ k))
  rw [Aligned, hn] at hx ⊢
  rw [BitVec.toNat_and, Nat.dvd_iff_mod_eq_zero, Nat.and_mod_two_pow,
    Nat.mod_eq_zero_of_dvd hx, Nat.zero_and]

theorem and_right {y : BitVec w} (hy : Aligned k a y) (x : BitVec w) : Aligned k a (x &&& y) := by
  rw [BitVec.and_comm]
  exact hy.and_left x

end Aligned

/-- The bits below the lowest set bit are clear. -/
theorem Word.bit_of_lt_trailingZeros {v : Word} {i : Nat} (hi : i < v.trailingZeros) :
    v.getLsbD i = false := by
  change v.bit i = false
  cases hf : (List.range 64).find? v.bit with
  | none =>
    have hlt : i < 64 := by simpa [trailingZeros, hf] using hi
    simpa using List.find?_range_eq_none.mp hf i hlt
  | some j =>
    have hlt : i < j := by simpa [trailingZeros, hf] using hi
    obtain ⟨-, -, hbefore⟩ := List.find?_range_eq_some.mp hf
    simpa using hbefore i hlt

theorem Word.two_pow_trailingZeros_dvd (v : Word) : 2 ^ v.trailingZeros ∣ v.toNat := by
  rw [Nat.dvd_iff_mod_eq_zero]
  refine Nat.eq_of_testBit_eq fun i => ?_
  rw [Nat.testBit_mod_two_pow, Nat.zero_testBit]
  by_cases hi : i < v.trailingZeros
  · rw [BitVec.testBit_toNat, bit_of_lt_trailingZeros hi, Bool.and_false]
  · simp [hi]

end Rax

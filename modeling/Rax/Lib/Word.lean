import Mathlib.Tactic.Common
import Mathlib.Logic.Function.Basic
import Mathlib.Algebra.Order.Ring.Int

/-!
# Machine words

Words, bytes and the few bit-vector facts that the rest of the development uses.
Nothing here mentions a particular machine.
-/

namespace Rax

/-- A 64-bit machine word. -/
abbrev Word := BitVec 64

/-- An 8-bit byte. -/
abbrev Byte := BitVec 8

/-- Membership in a list of words is decided by comparing them. -/
instance : LawfulBEq Word := inferInstance

namespace Word

/-- The word whose low `n` bits are set. -/
def lowMask (n : Nat) : Word := (1 <<< n) - 1

/-- Left shift whose count is reduced modulo the word size. -/
def shl (v : Word) (n : Nat) : Word := v <<< (n % 64)

/-- Logical right shift whose count is reduced modulo the word size. -/
def shr (v : Word) (n : Nat) : Word := v >>> (n % 64)

/-- Arithmetic right shift whose count is reduced modulo the word size. -/
def sar (v : Word) (n : Nat) : Word := v.sshiftRight (n % 64)

/-- Whether bit `n` of the word is set. -/
def bit (v : Word) (n : Nat) : Bool := v.getLsbD n

/-- The little-endian value of a byte list. -/
def fromLeBytes : List Byte → Word
  | [] => 0
  | b :: bs => b.setWidth 64 ||| (fromLeBytes bs <<< 8)

/-- The first `n` bytes of the little-endian form. -/
def toLeBytes (v : Word) (n : Nat) : List Byte :=
  (List.range n).map fun i => (v >>> (8 * i)).setWidth 8

/-- The low 32 bits, zero-extended. -/
def low32 (v : Word) : Word := v &&& 0xFFFFFFFF

/-- Number of set bits. -/
def countOnes (v : Word) : Nat := (List.range 64).countP v.bit

/-- Number of zero bits below the lowest set bit. -/
def trailingZeros (v : Word) : Nat := ((List.range 64).find? v.bit).getD 64

/-- Number of zero bits above the highest set bit. -/
def leadingZeros (v : Word) : Nat :=
  ((List.range 64).find? fun i => v.bit (63 - i)).getD 64

/-- Exactly one bit is set. -/
def isPowerOfTwo (v : Word) : Bool := v.countOnes == 1

theorem replace_and (a old p : Word) : ((old &&& ~~~a) ||| (p &&& a)) &&& a = p &&& a := by
  refine BitVec.eq_of_getLsbD_eq fun i hi => ?_
  simp only [BitVec.getLsbD_and, BitVec.getLsbD_or, BitVec.getLsbD_not]
  cases a.getLsbD i <;> simp

/-- A field extracted above bit `a` depends only on the word shifted right by `a`. -/
theorem shiftRight_eq_of_shiftRight_eq {v w : Word} {a b : Nat} (hab : a ≤ b)
    (h : v >>> a = w >>> a) : v >>> b = w >>> b := by
  obtain ⟨k, rfl⟩ := Nat.exists_eq_add_of_le hab
  rw [BitVec.shiftRight_add, BitVec.shiftRight_add, h]

/-- Tagging by exclusive or with a fixed key is injective. -/
theorem xor_key_inj {a b key : Word} (h : a ^^^ key = b ^^^ key) : a = b := by
  simpa using h

end Word

end Rax

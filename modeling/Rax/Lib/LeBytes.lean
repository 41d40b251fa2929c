import Rax.Lib.Word

/-!
# Bits of little-endian words

Which bits of a word come from which byte, the value of few bytes, and the low part of a word as a
narrower one.
-/

namespace Rax.Word

variable {bs cs : List Byte} {i k : Nat}

theorem toNat_fromLeBytes_cons (b : Byte)
    (h : (fromLeBytes bs).toNat < 2 ^ 56) :
    (fromLeBytes (b :: bs)).toNat = b.toNat + 256 * (fromLeBytes bs).toNat := by
  have hb := b.isLt
  have hshift : (fromLeBytes bs).toNat <<< 8 = 256 * (fromLeBytes bs).toNat := by
    rw [Nat.shiftLeft_eq, Nat.mul_comm]
  rw [fromLeBytes, BitVec.toNat_or, BitVec.toNat_setWidth, BitVec.toNat_shiftLeft,
    Nat.mod_eq_of_lt (by omega), Nat.mod_eq_of_lt (by omega), Nat.or_comm,
    ← Nat.shiftLeft_add_eq_or_of_lt hb, hshift, Nat.add_comm]

end Rax.Word

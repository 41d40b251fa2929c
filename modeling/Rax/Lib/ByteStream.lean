import Rax.Lib.Bytes

/-!
# Byte streams of aligned words and strings

Big-endian words, padding to four bytes and strings that end with a zero byte, each with the reader
that takes it off the front of a stream.
-/

namespace Rax.ByteStream

/-! ## Words -/

def beBytes (v : Reg) : List Byte :=
  [v.extractLsb' 24 8, v.extractLsb' 16 8, v.extractLsb' 8 8, v.extractLsb' 0 8]

def readWord : List Byte → Option (Reg × List Byte)
  | a :: b :: c :: d :: rest => some (a ++ b ++ c ++ d, rest)
  | _ => none

@[simp] theorem length_beBytes (v : Reg) : (beBytes v).length = 4 := rfl

theorem beBytes_joined (v : Reg) :
    v.extractLsb' 24 8 ++ v.extractLsb' 16 8 ++ v.extractLsb' 8 8 ++ v.extractLsb' 0 8 = v := by
  refine BitVec.eq_of_getLsbD_eq fun i hi => ?_
  simp only [BitVec.getLsbD_append, BitVec.getLsbD_extractLsb']
  grind

@[simp] theorem readWord_beBytes (v : Reg) (rest : List Byte) :
    readWord (beBytes v ++ rest) = some (v, rest) := by
  simp only [beBytes, List.cons_append, List.nil_append, readWord, beBytes_joined]

/-! ## Padding -/

/-- A length rounded up to four. -/
def align (n : Nat) : Nat := (n + 3) / 4 * 4

theorem align_mod (n : Nat) : align n % 4 = 0 := by
  unfold align
  omega

theorem le_align (n : Nat) : n ≤ align n := by
  unfold align
  omega

/-- Zeros are added until the length is a multiple of four. -/
def pad (bs : List Byte) : List Byte := bs ++ List.replicate (align bs.length - bs.length) 0

@[simp] theorem length_pad (bs : List Byte) : (pad bs).length = align bs.length := by
  have := le_align bs.length
  simp only [pad, List.length_append, List.length_replicate]
  omega

variable {name : List Byte}

end Rax.ByteStream

import Rax.Lib.Word

/-!
# Bytes of a 32-bit register

Reading a register byte by byte, replacing its bytes one at a time, and the two halves of a 64-bit
register.
-/

namespace Rax

/-- A block with some fields put in, each a position and what stands there. -/
def overlay {α : Type} (block : List α) (fields : List (Nat × List α)) : List α :=
  fields.foldl (fun block (pos, vs) => block.take pos ++ vs ++ block.drop (pos + vs.length)) block

/-- A 32-bit device register. -/
abbrev Reg := BitVec 32

namespace Reg

variable {v w : Reg} {b b0 b1 b2 b3 c0 c1 c2 c3 : Byte} {i k : Nat}

def byteAt (v : Reg) (k : Nat) : Byte := (v >>> (8 * k)).setWidth 8

/-- Replace byte `k`. -/
def putByte (v : Reg) (k : Nat) (b : Byte) : Reg :=
  (v &&& ~~~(0xFF#32 <<< (8 * k))) ||| (b.setWidth 32 <<< (8 * k))

/-- Replace bytes from a position on; bytes past the end are dropped. -/
def putBytes (v : Reg) : Nat → List Byte → Reg
  | _, [] => v
  | pos, b :: bs => putBytes (if pos < 4 then v.putByte pos b else v) (pos + 1) bs

/-- `n` bytes from a position on; there are zeros past the end. -/
def takeBytes (v : Reg) (pos n : Nat) : List Byte :=
  (List.range n).map fun i => if pos + i < 4 then v.byteAt (pos + i) else 0

/-- A register from its four bytes, low one first. -/
def ofBytes (b0 b1 b2 b3 : Byte) : Reg :=
  b0.setWidth 32 ||| (b1.setWidth 32 <<< 8) ||| (b2.setWidth 32 <<< 16) |||
    (b3.setWidth 32 <<< 24)

end Reg

/-- The halves of a 64-bit register that is accessed as two 32-bit ones. -/
def Word.lowHalf (a : Word) : Reg := a.setWidth 32

def Word.highHalf (a : Word) : Reg := a.extractLsb' 32 32

def Word.withLow (a : Word) (v : Reg) : Word := a.highHalf ++ v

def Word.withHigh (a : Word) (v : Reg) : Word := v ++ a.lowHalf

theorem Word.lowHalf_append (h l : Reg) : Word.lowHalf (h ++ l) = l := by
  refine BitVec.eq_of_getLsbD_eq fun i hi => ?_
  rw [Word.lowHalf, BitVec.getLsbD_setWidth, BitVec.getLsbD_append]
  simp [hi]

theorem Word.highHalf_append (h l : Reg) : Word.highHalf (h ++ l) = h := by
  refine BitVec.eq_of_getLsbD_eq fun i hi => ?_
  rw [Word.highHalf, BitVec.getLsbD_extractLsb', BitVec.getLsbD_append]
  simp [hi]

@[simp] theorem Word.lowHalf_withLow (a : Word) (v : Reg) : (a.withLow v).lowHalf = v :=
  Word.lowHalf_append _ v

@[simp] theorem Word.highHalf_withLow (a : Word) (v : Reg) :
    (a.withLow v).highHalf = a.highHalf := Word.highHalf_append _ v

@[simp] theorem Word.lowHalf_withHigh (a : Word) (v : Reg) :
    (a.withHigh v).lowHalf = a.lowHalf := Word.lowHalf_append v _

@[simp] theorem Word.highHalf_withHigh (a : Word) (v : Reg) : (a.withHigh v).highHalf = v :=
  Word.highHalf_append v _

end Rax

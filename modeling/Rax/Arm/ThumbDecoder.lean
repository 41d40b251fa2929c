import Rax.Lib.Word

/-!
# Branches in the Thumb decoder

The part of `arm/decoder/thumb.rs` that all cores share and that decodes branches and calls: their
kind, their condition, and their offset as a signed 64-bit number. Instructions of other groups are
not told apart.
-/

namespace Rax.Arm

inductive ThumbInsn
  | b (offset : BitVec 64)
  | bcc (cond : Nat) (offset : BitVec 64)
  | bl (offset : BitVec 64)
  | blxLabel (offset : BitVec 64)
  | bx (rm : Nat)
  | blx (rm : Nat)
  | udf (imm : BitVec 64)
  | svc (imm : BitVec 64)
  | other
  deriving DecidableEq, Repr

namespace ThumbDecoder

/-! ## 16-bit instructions -/

def decodeSpecialDataBranch (raw : BitVec 16) : ThumbInsn :=
  match ((raw >>> 6) &&& 0xF).toNat with
  | 0b1100 | 0b1101 => .bx ((raw >>> 3) &&& 0xF).toNat
  | 0b1110 | 0b1111 => .blx ((raw >>> 3) &&& 0xF).toNat
  | _ => .other

def decodeCondBranchSvc (raw : BitVec 16) : ThumbInsn :=
  let imm8 := (raw &&& 0xFF).setWidth 64
  if (raw >>> 8) &&& 0xF = 0b1110 then .udf imm8
  else if (raw >>> 8) &&& 0xF = 0b1111 then .svc imm8
  else
    .bcc ((raw >>> 8) &&& 0xF).toNat
      (if imm8 &&& (1 <<< 7) ≠ 0 then (imm8 ||| ~~~0xFF#64) <<< 1 else imm8 <<< 1)

def decodeUncondBranch (raw : BitVec 16) : ThumbInsn :=
  let imm11 := (raw &&& 0x7FF).setWidth 64
  .b (if imm11 &&& (1 <<< 10) ≠ 0 then (imm11 ||| ~~~0x7FF#64) <<< 1 else imm11 <<< 1)

def decode16bit (raw : BitVec 16) : ThumbInsn :=
  match (raw >>> 10).toNat with
  | 0b010001 => decodeSpecialDataBranch raw
  | 0b110100 | 0b110101 | 0b110110 | 0b110111 => decodeCondBranchSvc raw
  | 0b111000 | 0b111001 => decodeUncondBranch raw
  | _ => .other

/-! ## 32-bit instructions -/

def hw1 (raw : BitVec 32) : BitVec 16 := (raw >>> 16).setWidth 16

def hw2 (raw : BitVec 32) : BitVec 16 := raw.setWidth 16

/-- One bit of a halfword, as part of an immediate. -/
def bitOf (hw : BitVec 16) (pos : Nat) : BitVec 32 := ((hw >>> pos) &&& 1#16).setWidth 32

/-- S:J2:J1:imm6:imm11:0. -/
def condImm (raw : BitVec 32) : BitVec 32 :=
  (bitOf (hw1 raw) 10 <<< 20) ||| (bitOf (hw2 raw) 11 <<< 19) ||| (bitOf (hw2 raw) 13 <<< 18) |||
    ((hw1 raw &&& 0x3F).setWidth 32 <<< 12) ||| ((hw2 raw &&& 0x7FF).setWidth 32 <<< 1)

/-- A bit that is stored as its exclusive or with S, complemented. -/
def foldedBit (raw : BitVec 32) (pos : Nat) : BitVec 32 :=
  (~~~((((hw2 raw >>> pos) &&& 1#16) ^^^ ((hw1 raw >>> 10) &&& 1#16)) &&& 1#16) &&& 1#16).setWidth 32

/-- S:I1:I2:imm10:imm11:0. -/
def wideImm (raw : BitVec 32) : BitVec 32 :=
  (bitOf (hw1 raw) 10 <<< 24) ||| (foldedBit raw 13 <<< 23) ||| (foldedBit raw 11 <<< 22) |||
    ((hw1 raw &&& 0x3FF).setWidth 32 <<< 12) ||| ((hw2 raw &&& 0x7FF).setWidth 32 <<< 1)

/-- Sign extension by the bits above the sign. -/
def signed (raw imm above : BitVec 32) : BitVec 64 :=
  (if (hw1 raw >>> 10) &&& 1 = 1 then imm ||| above else imm).signExtend 64

def decode32bitBranchMisc (raw : BitVec 32) : ThumbInsn :=
  if (hw2 raw >>> 12) &&& 0x5 = 0 ∧ (hw1 raw >>> 4) &&& 0x38 ≠ 0x38 then
    .bcc ((hw1 raw >>> 6) &&& 0xF).toNat (signed raw (condImm raw) 0xFFE00000)
  else if (hw2 raw >>> 12) &&& 0x4 = 0x4 ∨ (hw2 raw >>> 12) &&& 0x5 = 0x1 then
    let offset := signed raw (wideImm raw) 0xFE000000
    if (hw2 raw >>> 14) &&& 1 = 1 ∧ (hw2 raw >>> 12) &&& 1 = 0 then .blxLabel offset
    else if (hw2 raw >>> 14) &&& 1 = 1 then .bl offset
    else .b offset
  else .other

def decode32bit (raw : BitVec 32) : ThumbInsn :=
  if (hw1 raw >>> 11) &&& 0x3 = 0b10 ∧ (hw2 raw >>> 15) &&& 1 ≠ 0 then decode32bitBranchMisc raw
  else .other

end ThumbDecoder

end Rax.Arm

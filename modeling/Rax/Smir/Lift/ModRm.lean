import Rax.Smir.Lift.Function

/-!
# ModRM, SIB and displacement

`decode_modrm` of the x86-64 lifter (`smir/lift/x86_64/decode/modrm.rs`), over the prefixes that it
reads. Register numbers have up to five bits, of which the prefixes give the upper ones.
-/

namespace Rax.Smir.Lift

/-- The extension bits of a REX2 prefix. -/
structure Rex2Prefix where
  rHi : Bool
  xHi : Bool
  bHi : Bool
  rLo : Bool
  xLo : Bool
  bLo : Bool
  deriving DecidableEq, Repr

namespace Rex2Prefix

def ext (hi lo : Bool) : Byte := (if hi then 16 else 0) ||| (if lo then 8 else 0)

def rExt (p : Rex2Prefix) : Byte := ext p.rHi p.rLo

def xExt (p : Rex2Prefix) : Byte := ext p.xHi p.xLo

def bExt (p : Rex2Prefix) : Byte := ext p.bHi p.bLo

end Rex2Prefix

structure X86Prefix where
  rex : Option Byte := none
  rex2 : Option Rex2Prefix := none
  addressSizeOverride : Bool := false
  segmentOverride : Option Byte := none
  evexMemBaseHigh : Bool := false
  evexMemIndexHigh : Bool := false
  deriving DecidableEq, Repr

namespace X86Prefix

variable (p : X86Prefix)

def rexR : Byte :=
  match p.rex2 with
  | some r => r.rExt
  | none => p.rex.elim 0 fun r => (r &&& 0x04) <<< 1

def rexX : Byte :=
  match p.rex2 with
  | some r => r.xExt
  | none => p.rex.elim 0 fun r => (r &&& 0x02) <<< 2

def rexB : Byte :=
  match p.rex2 with
  | some r => r.bExt
  | none => p.rex.elim 0 fun r => (r &&& 0x01) <<< 3

/-- The segments whose bases count in 64-bit mode. -/
def segment : Option X86Reg :=
  match p.segmentOverride with
  | some v => if v = 0x64 then some .fsBase else if v = 0x65 then some .gsBase else none
  | none => none

end X86Prefix

inductive DispSize
  | auto | disp8 | disp32
  deriving DecidableEq, Repr

structure X86Address where
  base : Option Byte
  index : Option Byte
  scale : Byte
  disp : Word
  ripRelative : Bool
  addressWidth : OpWidth
  dispSize : DispSize
  segment : Option X86Reg
  deriving DecidableEq, Repr

structure ModRm where
  byte : Byte
  modBits : Byte
  reg : Byte
  rm : Byte
  isMemory : Bool
  addr : Option X86Address
  bytesConsumed : Nat
  deriving DecidableEq, Repr

section Decode

variable (bytes : List Byte) (pfx : X86Prefix) (addr : Word)

def readDisp32 (consumed : Nat) : Except LiftError Word :=
  if bytes.length < consumed + 4 then .error (.incomplete addr bytes.length (consumed + 4))
  else
    let v : BitVec 32 := bytes.getD (consumed + 3) 0 ++ bytes.getD (consumed + 2) 0 ++
      bytes.getD (consumed + 1) 0 ++ bytes.getD consumed 0
    .ok (v.signExtend 64)

def readDisp8 (consumed : Nat) : Except LiftError Word :=
  if bytes.length < consumed + 1 then .error (.incomplete addr bytes.length (consumed + 1))
  else .ok ((bytes.getD consumed 0).signExtend 64)

/-- The address before anything has been decoded. -/
def X86Prefix.emptyAddress : X86Address where
  base := none
  index := none
  scale := 1
  disp := 0
  ripRelative := false
  addressWidth := if pfx.addressSizeOverride then .w32 else .w64
  dispSize := .auto
  segment := pfx.segment

/-- An address with an index, of which the number 4 stands for none. -/
def X86Prefix.indexed (scale index : Byte) : X86Address :=
  { pfx.emptyAddress with scale, index := if index ≠ 4 then some index else none }

/-- Base and index from the SIB byte, with the number of bytes used so far. -/
def decodeSib (modBits : Byte) : Except LiftError (X86Address × Nat) :=
  if bytes.length < 2 then .error (.incomplete addr bytes.length 2)
  else
    let sib := bytes.getD 1 0
    let index := (sib >>> 3) &&& 0x07 ||| pfx.rexX ||| if pfx.evexMemIndexHigh then 16 else 0
    let base := sib &&& 0x07 ||| pfx.rexB ||| if pfx.evexMemBaseHigh then 16 else 0
    let a := pfx.indexed ((1 : Byte) <<< (sib >>> 6).toNat) index
    if sib &&& 0x07 = 5 ∧ modBits = 0 then do
      let disp ← readDisp32 bytes addr 2
      return ({ a with disp, dispSize := .disp32 }, 6)
    else .ok ({ a with base := some base }, 2)

/-- The address before the displacement of modes 1 and 2. -/
def decodeBase (modBits rmField rm : Byte) : Except LiftError (X86Address × Nat) :=
  if rmField = 4 then decodeSib bytes pfx addr modBits
  else if rmField = 5 ∧ modBits = 0 then
    if bytes.length < 5 then .error (.incomplete addr bytes.length 5)
    else do
      let disp ← readDisp32 bytes addr 1
      return ({ pfx.emptyAddress with disp, ripRelative := true, dispSize := .disp32 }, 5)
  else
    .ok ({ pfx.emptyAddress with
      base := some (rm ||| if pfx.evexMemBaseHigh then 16 else 0) }, 1)

/-- The displacement that modes 1 and 2 add. -/
def decodeDisp (modBits : Byte) (a : X86Address) (consumed : Nat) :
    Except LiftError (X86Address × Nat) :=
  if modBits = 1 then do
    let disp ← readDisp8 bytes addr consumed
    return ({ a with disp, dispSize := .disp8 }, consumed + 1)
  else if modBits = 2 then do
    let disp ← readDisp32 bytes addr consumed
    return ({ a with disp, dispSize := .disp32 }, consumed + 4)
  else .ok (a, consumed)

def decodeModrm : Except LiftError ModRm :=
  match bytes with
  | [] => .error (.incomplete addr 0 1)
  | modrm :: _ =>
    let modBits := modrm >>> 6
    let rmField := modrm &&& 0x07
    let reg := (modrm >>> 3) &&& 0x07 ||| pfx.rexR
    let rm := rmField ||| pfx.rexB
    if modBits = 3 then
      .ok { byte := modrm, modBits, reg, rm, isMemory := false, addr := none, bytesConsumed := 1 }
    else do
      let (a, consumed) ← decodeBase bytes pfx addr modBits rmField rm
      let (a, consumed) ← decodeDisp bytes addr modBits a consumed
      return { byte := modrm, modBits, reg, rm, isMemory := true, addr := some a,
               bytesConsumed := consumed }

end Decode

end Rax.Smir.Lift

import Rax.Lib.Word

/-!
# Types of the intermediate representation

Operand widths, registers, operands and addresses of SMIR (`smir/ir/types.rs`). Signed
immediates and displacements are kept as the 64-bit word that their sign extension gives.
Encoding hints that no evaluation reads (displacement sizes) are left out.
-/

namespace Rax.Smir

/-- Width of an integer operation. -/
inductive OpWidth where
  | w8 | w16 | w32 | w64 | w128
  deriving DecidableEq, Repr

namespace OpWidth

def bits : OpWidth → Nat
  | w8 => 8
  | w16 => 16
  | w32 => 32
  | w64 => 64
  | w128 => 128

def mask : OpWidth → Word
  | w8 => 0xFF
  | w16 => 0xFFFF
  | w32 => 0xFFFFFFFF
  | w64 | w128 => 0xFFFFFFFFFFFFFFFF

/-- The sign bit. The shift count of a 128-bit operation wraps modulo 64. -/
def signBit (w : OpWidth) : Word := Word.shl 1 (w.bits - 1)

/-- The widths below 32 bits, at which an x86 register write merges. -/
def isSub : OpWidth → Bool
  | w8 | w16 => true
  | _ => false

end OpWidth

/-- Width of a memory access. -/
inductive MemWidth where
  | b1 | b2 | b4 | b8 | b16 | b32 | b64
  deriving DecidableEq, Repr

namespace MemWidth

def bytes : MemWidth → Nat
  | b1 => 1
  | b2 => 2
  | b4 => 4
  | b8 => 8
  | b16 => 16
  | b32 => 32
  | b64 => 64

def toOpWidth : MemWidth → Option OpWidth
  | b1 => some .w8
  | b2 => some .w16
  | b4 => some .w32
  | b8 => some .w64
  | b16 => some .w128
  | b32 | b64 => none

end MemWidth

inductive SignExtend where
  | zero | sign
  deriving DecidableEq, Repr

inductive SourceArch where
  | x86_64 | aarch64 | aarch32 | thumb | hexagon | riscV64 | riscV32
  | mips64 | mips32 | sparc64 | sparc32
  deriving DecidableEq, Repr

/-- Which register file a context carries (`ArchRegState`). -/
inductive Arch where
  | x86 | aarch64 | hexagon | riscV
  deriving DecidableEq, Repr

/-- x86 registers. The general purpose registers RAX to R31 are numbered as the source's
`X86Reg::gpr_index` numbers them. -/
inductive X86Reg where
  | gpr (n : Fin 32)
  | rip | rflags | fsBase | gsBase | kernelGsBase | pkru
  | mm (n : Nat)
  | xmm (n : Nat)
  | ymm (n : Nat)
  | zmm (n : Nat)
  | k (n : Nat)
  deriving DecidableEq, Repr

namespace X86Reg

abbrev rax : X86Reg := gpr 0
abbrev rcx : X86Reg := gpr 1
abbrev rdx : X86Reg := gpr 2
abbrev rbx : X86Reg := gpr 3
abbrev rsp : X86Reg := gpr 4

end X86Reg

inductive ArmReg where
  | x (n : Nat)
  | sp | pc | nzcv
  | v (n : Nat)
  | fpcr | fpsr
  | sysReg (n : Nat)
  deriving DecidableEq, Repr

inductive HexagonReg where
  | r (n : Nat)
  | p (n : Nat)
  | pc | gp | lr | sp | fp | lc0 | lc1 | sa0 | sa1 | usr
  | v (n : Nat)
  | q (n : Nat)
  | m (n : Nat)
  | cs (n : Nat)
  deriving DecidableEq, Repr

inductive RiscVReg where
  | x (n : Nat)
  | f (n : Nat)
  | v (n : Nat)
  | pc
  | csr (n : Nat)
  deriving DecidableEq, Repr

inductive ArchReg where
  | x86 (r : X86Reg)
  | arm (r : ArmReg)
  | hexagon (r : HexagonReg)
  | riscV (r : RiscVReg)
  deriving DecidableEq, Repr

/-- A register operand: an SSA temporary, an architectural register or a constant. -/
inductive VReg where
  | virt (id : Nat)
  | arch (r : ArchReg)
  | imm (val : Word)
  deriving DecidableEq, Repr

namespace VReg

abbrev x86 (r : X86Reg) : VReg := arch (.x86 r)
abbrev rax : VReg := x86 .rax
abbrev rcx : VReg := x86 .rcx
abbrev rdx : VReg := x86 .rdx
abbrev rbx : VReg := x86 .rbx
abbrev usr : VReg := arch (.hexagon .usr)

def isVirtual : VReg → Bool
  | virt _ => true
  | _ => false

def isArch : VReg → Bool
  | arch _ => true
  | _ => false

/-- The destinations at which the interpreter applies x86 sub-register merging. -/
def isX86 : VReg → Bool
  | arch (.x86 _) => true
  | _ => false

end VReg

inductive ShiftOp where
  | lsl | lsr | asr | ror | rrx
  deriving DecidableEq, Repr

inductive ExtendOp where
  | uxtb | uxth | uxtw | uxtx | sxtb | sxth | sxtw | sxtx
  deriving DecidableEq, Repr

inductive SrcOperand where
  | reg (r : VReg)
  | imm (val : Word)
  | imm64 (val : Word)
  | shifted (reg : VReg) (shift : ShiftOp) (amount : Nat)
  | extended (reg : VReg) (extend : ExtendOp) (shift : Nat)
  deriving DecidableEq, Repr

namespace SrcOperand

/-- Every register the operand reads. -/
def regs : SrcOperand → List VReg
  | reg r | shifted r _ _ | extended r _ _ => [r]
  | imm _ | imm64 _ => []

/-- The register of the plain register form. The optimizer's use tables match this form only. -/
def plainReg : SrcOperand → List VReg
  | reg r => [r]
  | _ => []

end SrcOperand

inductive Address where
  | x86Addr32 (inner : Address)
  | direct (r : VReg)
  | baseOffset (base : VReg) (offset : Word)
  | baseIndexScale (base : Option VReg) (index : VReg) (scale : Nat) (disp : Word)
  | pcRel (offset : Word) (base : Option Word)
  | gpRel (offset : Word)
  | absolute (addr : Word)
  | segmentRel (segment : VReg) (base index : Option VReg) (scale : Nat) (disp : Word)
  deriving DecidableEq, Repr

/-- The registers the source lists for an address. -/
def Address.regs : Address → List VReg
  | x86Addr32 inner => inner.regs
  | direct r => [r]
  | baseOffset base _ => [base]
  | baseIndexScale base index _ _ => index :: base.toList
  | pcRel .. | gpRel .. | absolute .. => []
  | segmentRel segment base index _ _ => segment :: (base.toList ++ index.toList)

inductive Condition where
  | eq | ne | ult | ule | ugt | uge | slt | sle | sgt | sge
  | negative | positive | overflow | noOverflow | parity | noParity | always
  deriving DecidableEq, Repr

end Rax.Smir

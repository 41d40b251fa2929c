import Rax.Smir.Ops

/-!
# Functions and their control flow

Basic blocks with their terminators, as the optimizer, the interpreter and the native
compiler share them.
-/

namespace Rax.Smir

abbrev BlockId := Nat

abbrev FunctionId := Nat

inductive RuntimeFunc
  | syscall
  | pageFault
  | fpException
  | undefined
  | breakpoint
  | memoryBarrier
  | cpuid
  | rdtsc
  deriving DecidableEq

inductive CallTarget
  | direct (function : FunctionId)
  | guestAddr (addr : Word)
  | guestAddrInterworking (addr : Word) (thumb : Bool)
  | indirect (reg : VReg)
  | indirectInterworking (reg : VReg)
  | indirectMem (addr : Address)
  | x86IndirectMemAddr32 (addr : Address)
  | runtime (func : RuntimeFunc)

/-- Registers read while resolving a call target. -/
def CallTarget.regs : CallTarget → List VReg
  | indirect reg | indirectInterworking reg => [reg]
  | indirectMem addr | x86IndirectMemAddr32 addr => addr.regs
  | _ => []

inductive X86StringIoKind
  | ins
  | outs
  deriving DecidableEq

inductive X86Segment
  | es
  | cs
  | ss
  | ds
  | fs
  | gs
  deriving DecidableEq

inductive TrapKind
  | breakpoint
  | x86Debug (faultPc returnPc : Word) (requiresApx : Bool)
  | x86SoftwareInterrupt (vector : BitVec 8) (faultPc returnPc : Word) (requiresApx : Bool)
  | x86InterruptReturn (width : OpWidth) (faultPc : Word) (requiresApx : Bool)
  | x86StringIo (kind : X86StringIoKind) (width : MemWidth) (addressWidth : OpWidth)
      (repeated : Bool) (memorySegment : X86Segment) (faultPc returnPc : Word)
      (requiresApx : Bool)
  | undefined
  | divideByZero
  | overflow
  | bounds
  | invalidOpcode
  | systemCall
  | halt
  | generalProtection

inductive Terminator
  | branch (target : BlockId)
  | condBranch (cond : VReg) (trueTarget falseTarget : BlockId)
  | switch (index : VReg) (targets : List BlockId) (default : BlockId)
  | indirectBranch (target : VReg) (possibleTargets : List BlockId)
  | indirectBranchMem (addr : Address) (possibleTargets : List BlockId)
  | ret (values : List VReg)
  | call (target : CallTarget) (args : List VReg) (continuation : BlockId)
  | tailCall (target : CallTarget) (args : List VReg)
  | trap (kind : TrapKind)
  | unreachable

namespace Terminator

def successors : Terminator → List BlockId
  | branch target => [target]
  | condBranch _ trueTarget falseTarget => [trueTarget, falseTarget]
  | switch _ targets default => targets ++ [default]
  | indirectBranch _ possibleTargets | indirectBranchMem _ possibleTargets => possibleTargets
  | call _ _ continuation => [continuation]
  | ret _ | tailCall .. | trap _ | unreachable => []

/-- `terminator_reg_uses` -/
def regUses : Terminator → List VReg
  | condBranch cond _ _ => [cond]
  | switch index _ _ => [index]
  | indirectBranch target _ => [target]
  | indirectBranchMem addr _ => addr.regs
  | ret values => values
  | call target args _ | tailCall target args => target.regs ++ args
  | branch _ | trap _ | unreachable => []

end Terminator

structure SmirBlock (μ : Type) where
  id : BlockId
  guestPc : Word
  ops : List (SmirOp μ) := []
  terminator : Terminator

structure SmirFunction (μ : Type) where
  entry : BlockId
  blocks : List (SmirBlock μ)
  preserveInterpreterFrontiers : Bool := false
  /-- Source bytes of x86 instructions, by block and guest address. -/
  x86InstructionBytes : BlockId → Word → Option (List Byte) := fun _ _ => none

namespace SmirFunction

variable {μ : Type}

/-- The first block with an id. -/
def getBlock (func : SmirFunction μ) (id : BlockId) : Option (SmirBlock μ) :=
  func.blocks.find? (·.id == id)

variable {func : SmirFunction μ} {id : BlockId} {block : SmirBlock μ}

theorem getBlock_id (h : func.getBlock id = some block) : block.id = id := by
  simpa using List.find?_some h

theorem mem_of_getBlock (h : func.getBlock id = some block) : block ∈ func.blocks :=
  List.mem_of_find?_eq_some h

theorem exists_getBlock (h : block ∈ func.blocks) :
    ∃ first, func.getBlock block.id = some first := by
  rw [← Option.isSome_iff_exists, getBlock, List.find?_isSome]
  exact ⟨block, h, by simp⟩

/-- Every block has an id of its own. -/
def DistinctIds (func : SmirFunction μ) : Prop := (func.blocks.map (·.id)).Nodup

instance (func : SmirFunction μ) : Decidable func.DistinctIds :=
  inferInstanceAs (Decidable (func.blocks.map (·.id)).Nodup)

theorem DistinctIds.eq_of_id_eq (h : func.DistinctIds) {other : SmirBlock μ}
    (hblock : block ∈ func.blocks) (hother : other ∈ func.blocks) (hid : block.id = other.id) :
    block = other :=
  List.inj_on_of_nodup_map h hblock hother hid

theorem DistinctIds.getBlock_of_mem (h : func.DistinctIds) (hblock : block ∈ func.blocks) :
    func.getBlock block.id = some block := by
  obtain ⟨first, hfirst⟩ := exists_getBlock hblock
  rw [hfirst, h.eq_of_id_eq (mem_of_getBlock hfirst) hblock (getBlock_id hfirst)]

end SmirFunction

end Rax.Smir

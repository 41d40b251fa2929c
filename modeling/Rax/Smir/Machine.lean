import Rax.Lib.Exec
import Rax.Smir.Context

/-!
# Machine state

The state that the SMIR interpreter works on, the memory interface (`smir/ir/memory.rs`),
the reasons for leaving a block (`ExitReason`) and the effect of one operation.
-/

namespace Rax.Smir

/-- The x86 control state that guard operations test. -/
structure X86System where
  cr0 : Word := 0
  cr4 : Word := 0
  xcr0 : Word := 0
  cpl : Nat := 0
  apxEnabled : Bool := false
  sse4a : Bool := false
  tbm : Bool := false
  xop : Bool := false
  csL : Bool := false
  deriving DecidableEq, Repr

/-- The part of a context that no modelled operation changes. -/
structure Env where
  arch : Arch
  sourceArch : SourceArch
  x86 : X86System := {}
  deriving DecidableEq, Repr

inductive MemoryError where
  | pageFault (addr : Word) (write user : Bool)
  | accessViolation (addr : Word) (write : Bool)
  | alignment (addr : Word) (required : Nat)
  | mmio (addr : Word) (size : Nat)
  | exclusiveFailed
  | outOfBounds (addr : Word)
  deriving DecidableEq, Repr

/-- Why an operation did not complete: a memory error, or a panic of the interpreter (a
scalar access wider than its eight-byte buffer). -/
inductive Fault where
  | memory (e : MemoryError)
  | panic
  deriving DecidableEq, Repr

/-- Guest memory. Both accesses may change the memory, for instance at a device. -/
class SmirMemory (μ : Type) where
  read : μ → Word → Nat → μ × Except MemoryError (List Byte)
  write : μ → Word → List Byte → μ × Except MemoryError Unit

/-- Plain memory in which every address is mapped. -/
structure FlatMemory where
  byteAt : Word → Byte

instance : SmirMemory FlatMemory where
  read m a n := (m, .ok ((List.range n).map fun i => m.byteAt (a + BitVec.ofNat 64 i)))
  write m a bytes :=
    ({ byteAt := fun b =>
        let i := (b - a).toNat
        if h : i < bytes.length then bytes[i] else m.byteAt b }, .ok ())

/-- Fields of a string port operation that are handed to the integration. -/
structure StringIo where
  output : Bool
  width : MemWidth
  addressWidth : OpWidth
  repeated : Bool
  memorySegment : Nat
  deriving DecidableEq, Repr

inductive ExitReason where
  | halt
  | breakpoint (addr : Word)
  | memoryFault (addr : Word) (write : Bool)
  | undefined (addr : Word) (opcode : Nat)
  | generalProtection (addr : Word) (errorCode : Nat)
  | debug (addr : Word)
  | x86SoftwareInterrupt (vector : Nat) (faultPc returnPc : Word)
  | x86InterruptReturn (width : OpWidth) (faultPc : Word)
  | x86StringIo (io : StringIo) (faultPc returnPc : Word)
  | returnTo (addr : Word)
  | blockNotFound (addr : Word)
  | insnLimit
  | singleStep
  | panic
  deriving DecidableEq, Repr

/-- Machine state of a run. -/
structure Machine (μ : Type) where
  regs : RegFile
  flags : FlagState
  pc : Word
  mem : μ

/-- What the evaluation of an operation can look at. -/
structure Inputs (μ : Type) where
  read : VReg → Word
  flags : FlagImage
  pc : Word
  mem : μ

/-- Inputs that agree on the given registers and status flags, on the program counter if it
is used, and on everything else. -/
structure Inputs.Agree {μ : Type} (regs : List VReg) (flags : FlagSet) (usesPc : Bool)
    (i j : Inputs μ) : Prop where
  read : ∀ r ∈ regs, i.read r = j.read r
  bit : ∀ f ∈ flags, i.flags.bit f = j.flags.bit f
  df : i.flags.df = j.flags.df
  ac : i.flags.ac = j.flags.ac
  pc : usesPc = true → i.pc = j.pc
  mem : i.mem = j.mem

/-- What an operation that completes does: its register writes in order, what happens to
the flags, and a requested exit. -/
structure Effect where
  writes : List RegWrite := []
  flags : FlagAct := .keep
  exit : Option ExitReason := none

namespace Machine

variable {μ : Type}

def read (env : Env) (m : Machine μ) (r : VReg) : Word := m.regs.read env.arch r

def inputs (env : Env) (m : Machine μ) : Inputs μ :=
  { read := m.read env, flags := m.flags.image, pc := m.pc, mem := m.mem }

/-- The state after an effect. -/
def commit (env : Env) (m : Machine μ) (mem : μ) (eff : Effect) : Machine μ :=
  { m with
    regs := applyWrites env.arch eff.writes m.regs
    flags := eff.flags.apply m.flags
    mem }

/-- Every register and flag clear, over flat memory of zero bytes. -/
def blank : Machine FlatMemory :=
  { regs := fun _ => 0, flags := { materialized := fun _ => false }, pc := 0,
    mem := ⟨fun _ => 0⟩ }

/-- The blank machine of an x86 context with one register set. -/
def blankWith (r : X86Reg) (value : Word) : Machine FlatMemory :=
  { blank with regs := RegFile.write .x86 blank.regs (.x86 r) value }

end Machine

/-- Result of evaluating an operation: the memory afterwards, and the effect if it completed. -/
abbrev Evaluated (μ : Type) := μ × Except Fault Effect

end Rax.Smir

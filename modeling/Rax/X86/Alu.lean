import Rax.Lib.Command
import Rax.Lib.FlatMem
import Rax.X86.LazyFlags

/-!
# Integer instructions of the direct vCPU

The handlers of ADD, SUB, CMP, AND, OR, XOR, TEST, INC and DEC in all their encodings
(`execute/arith`, `execute/logic`, `execute/control/groups.rs`, `decode/dispatch/legacy.rs`
and the APX handlers of `decode/dispatch/evex`), with the order in which each of them reads
its operands, writes its destination and records its flags. Beside them stands the
architectural machine, whose status flags are always up to date. Instruction bytes and RIP
are left out: an instruction is given by its decoded operands.
-/

namespace Rax.X86

/-- Memory as the handlers use it. An access may fault and may change the memory in either
case. -/
class OperandMemory (μ : Type) (ε : outParam Type) where
  load : μ → Word → (s : OpSize) → Except ε (BitVec s.bits) × μ
  store : μ → Word → (s : OpSize) → BitVec s.bits → Except ε Unit × μ

/-- General-purpose registers by number, the extended ones included. -/
abbrev Registers := Fin 32 → Word

namespace Registers

def getReg (regs : Registers) (n : Fin 32) (s : OpSize) : Word := regs n &&& s.mask

def setReg (regs : Registers) (n : Fin 32) (v : Word) : OpSize → Registers
  | .b1 => Function.update regs n ((regs n &&& ~~~0xFF#64) ||| (v &&& 0xFF#64))
  | .b2 => Function.update regs n ((regs n &&& ~~~0xFFFF#64) ||| (v &&& 0xFFFF#64))
  | .b4 => Function.update regs n (v &&& 0xFFFFFFFF#64)
  | .b8 => Function.update regs n v

/-- AH, CH, DH and BH. -/
def getHigh (regs : Registers) (n : Fin 4) : Word :=
  (regs (n.castLE (by decide)) >>> 8) &&& 0xFF#64

def setHigh (regs : Registers) (n : Fin 4) (v : Word) : Registers :=
  Function.update regs (n.castLE (by decide))
    ((regs (n.castLE (by decide)) &&& ~~~0xFF00#64) ||| ((v &&& 0xFF#64) <<< 8))

end Registers

/-- A decoded operand that can be written. A memory operand gives its effective address. -/
inductive Place where
  | reg (n : Fin 32)
  | high (n : Fin 4)
  | mem (ea : Registers → Word)

inductive Source where
  | place (p : Place)
  | imm (v : Word)

structure Cpu (μ φ : Type) where
  regs : Registers
  mem : μ
  flags : φ

def modifyFlags {μ ε φ : Type} (g : φ → φ) : Command ε (Cpu μ φ) Unit :=
  modify fun c => { c with flags := g c.flags }

/-- Change the flags unless the instruction suppresses them. -/
def modifyFlagsUnless {μ ε φ : Type} (nf : Bool) (g : φ → φ) : Command ε (Cpu μ φ) Unit :=
  if nf then pure () else modifyFlags g

/-- Run an effect that sees the given status flags. -/
def runEffect {μ ε φ : Type} (see : φ → Status)
    (effect : Status → Registers → μ → Except ε Unit × Registers × μ) :
    Command ε (Cpu μ φ) Unit := fun c =>
  match effect (see c.flags) c.regs c.mem with
  | (.ok _, regs, mem) => .ok () { c with regs, mem }
  | (.error e, regs, mem) => .error e { c with regs, mem }

section Access

variable {μ ε φ : Type} [OperandMemory μ ε]

/-- Read an operand, zero-extended. -/
def readPlace (p : Place) (s : OpSize) : Command ε (Cpu μ φ) Word := fun c =>
  match p with
  | .reg n => .ok (c.regs.getReg n s) c
  | .high n => .ok (c.regs.getHigh n) c
  | .mem ea =>
    match OperandMemory.load c.mem (ea c.regs) s with
    | (.ok v, mem) => .ok (v.setWidth 64) { c with mem }
    | (.error e, mem) => .error e { c with mem }

def readSource (src : Source) (s : OpSize) : Command ε (Cpu μ φ) Word :=
  match src with
  | .place p => readPlace p s
  | .imm v => pure v

def writePlace (p : Place) (s : OpSize) (v : Word) : Command ε (Cpu μ φ) Unit := fun c =>
  match p with
  | .reg n => .ok () { c with regs := c.regs.setReg n v s }
  | .high n => .ok () { c with regs := c.regs.setHigh n v }
  | .mem ea =>
    match OperandMemory.store c.mem (ea c.regs) s (s.cut v) with
    | (.ok _, mem) => .ok () { c with mem }
    | (.error e, mem) => .error e { c with mem }

/-- Write the destination of an operation that has one. -/
def writeBack (writes : Bool) (p : Place) (s : OpSize) (v : Word) :
    Command ε (Cpu μ φ) Unit :=
  if writes then writePlace p s v else pure ()

end Access

inductive AluOp where
  | add | or | and | sub | xor | cmp | test
  deriving DecidableEq, Repr

namespace AluOp

def apply : AluOp → Word → Word → Word
  | add, a, b => a + b
  | or, a, b => a ||| b
  | and, a, b | test, a, b => a &&& b
  | sub, a, b | cmp, a, b => a - b
  | xor, a, b => a ^^^ b

/-- CMP and TEST have no destination. -/
def writes : AluOp → Bool
  | cmp | test => false
  | _ => true

def setLazy (op : AluOp) (a b result : Word) (s : OpSize) (f : FlagRegs) : FlagRegs :=
  match op with
  | add => f.setLazyAdd a b result s
  | sub | cmp => f.setLazySub a b result s
  | or | and | xor | test => f.setLazyLogic result s

/-- Architectural flags of the operation on operands of its size. -/
def status (op : AluOp) {w : Nat} (a b : BitVec w) : Status :=
  match op with
  | add => Status.add a b
  | sub | cmp => Status.sub a b
  | or => Status.logic (a ||| b)
  | and | test => Status.logic (a &&& b)
  | xor => Status.logic (a ^^^ b)

end AluOp

namespace ApxAluOp

/-- The same operation among those of the legacy encodings. -/
def legacy : ApxAluOp → AluOp
  | add => .add
  | or => .or
  | and => .and
  | sub => .sub
  | xor => .xor

end ApxAluOp

/-- Result of INC or DEC before it is cut to its size. -/
def stepped (isDec : Bool) (a : Word) : Word := if isDec then a - 1 else a + 1

/-- A decoded instruction. -/
inductive Instr (μ ε : Type) where
  /-- The opcodes 00 to 3F of the ALU operations, TEST and the dispatch-threaded copies of
  them. With `narrow` the handler is one of those on bytes that cut the result itself. -/
  | alu (op : AluOp) (narrow : Bool) (dst : Place) (src : Source) (s : OpSize)
  /-- Group 1, opcodes 80 to 83. -/
  | group1 (op : AluOp) (dst : Place) (imm : Word) (s : OpSize)
  /-- INC and DEC of groups 4 and 5, opcodes FE and FF. -/
  | incDec (isDec : Bool) (dst : Place) (s : OpSize)
  /-- The one-byte INC and DEC, opcodes 40 to 4F outside 64-bit mode. -/
  | incDecReg (isDec : Bool) (n : Fin 32) (s : OpSize)
  | apxAlu (op : ApxAluOp) (ndd : Option (Fin 32)) (src1 src2 : Place) (s : OpSize) (nf : Bool)
  | apxGroup1Imm (op : ApxAluOp) (ndd : Option (Fin 32)) (src : Place) (imm : Word) (s : OpSize)
      (nf : Bool)
  | apxIncDec (isDec : Bool) (ndd : Option (Fin 32)) (src : Place) (s : OpSize) (nf : Bool)
  /-- Any instruction that writes no flags. It may read them, and may settle them first. -/
  | other (settles : Bool)
      (effect : Status → Registers → μ → Except ε Unit × Registers × μ)

variable {μ ε : Type} [OperandMemory μ ε]

section Direct

def execAlu (op : AluOp) (narrow : Bool) (dst : Place) (src : Source) (s : OpSize) :
    Command ε (Cpu μ FlagRegs) Unit := do
  let b ← readSource src s
  let a ← readPlace dst s
  let result := if narrow && s = .b1 then op.apply a b &&& 0xFF else op.apply a b
  writeBack op.writes dst s result
  modifyFlags (op.setLazy a b result s)

/-- `apply_group1` records the flags before its callers write the destination. -/
def execGroup1 (op : AluOp) (dst : Place) (imm : Word) (s : OpSize) :
    Command ε (Cpu μ FlagRegs) Unit := do
  let a ← readPlace dst s
  let result := op.apply a imm
  modifyFlags (op.setLazy a imm result s)
  writeBack op.writes dst s result

def setLazyStepped (isDec : Bool) (a result : Word) (s : OpSize) (f : FlagRegs) : FlagRegs :=
  if isDec then f.setLazyDec a result s else f.setLazyInc a result s

def execIncDec (isDec : Bool) (dst : Place) (s : OpSize) : Command ε (Cpu μ FlagRegs) Unit := do
  modifyFlags FlagRegs.resolveLazyCf
  let a ← readPlace dst s
  let result := if s = .b1 then stepped isDec a &&& 0xFF else stepped isDec a
  writePlace dst s result
  modifyFlags (setLazyStepped isDec a result s)

/-- The one-byte forms do not resolve the pending carry. -/
def execIncDecReg (isDec : Bool) (n : Fin 32) (s : OpSize) :
    Command ε (Cpu μ FlagRegs) Unit := do
  let a ← readPlace (.reg n) s
  let result := stepped isDec a
  writePlace (.reg n) s result
  modifyFlags (setLazyStepped isDec a result s)

/-- Destination of an APX instruction: the new data destination, or the first source. -/
def apxDest (ndd : Option (Fin 32)) (src : Place) : Place := ndd.elim src .reg

def executeApxAlu (op : ApxAluOp) (ndd : Option (Fin 32)) (src1 src2 : Place) (s : OpSize)
    (nf : Bool) : Command ε (Cpu μ FlagRegs) Unit := do
  let b ← readPlace src2 s
  let a ← readPlace src1 s
  let result := op.legacy.apply a b
  writePlace (apxDest ndd src1) s result
  modifyFlagsUnless nf fun f => f.updateFlagsAlu result a b s op

def executeApxGroup1Imm (op : ApxAluOp) (ndd : Option (Fin 32)) (src : Place) (imm : Word)
    (s : OpSize) (nf : Bool) : Command ε (Cpu μ FlagRegs) Unit := do
  let a ← readPlace src s
  let result := op.legacy.apply a imm
  writePlace (apxDest ndd src) s result
  modifyFlagsUnless nf fun f => (f.updateFlagsAlu result a imm s op).clearLazyFlags

/-- Flags of the APX INC and DEC: those of an addition or subtraction with the old carry. -/
def updateFlagsStepped (isDec : Bool) (a result : Word) (s : OpSize) (f : FlagRegs) : FlagRegs :=
  let resolved := f.resolveLazyCf
  let oldCf := resolved.rflags &&& 0x1#64
  let updated := resolved.updateFlagsAlu result a 1 s (if isDec then .sub else .add)
  { updated with rflags := (updated.rflags &&& ~~~0x1#64) ||| oldCf }.clearLazyFlags

def executeApxIncDec (isDec : Bool) (ndd : Option (Fin 32)) (src : Place) (s : OpSize)
    (nf : Bool) : Command ε (Cpu μ FlagRegs) Unit := do
  let a ← readPlace src s
  let result := stepped isDec a
  writePlace (apxDest ndd src) s result
  modifyFlagsUnless nf (updateFlagsStepped isDec a result s)

def Instr.command : Instr μ ε → Command ε (Cpu μ FlagRegs) Unit
  | .alu op narrow dst src s => execAlu op narrow dst src s
  | .group1 op dst imm s => execGroup1 op dst imm s
  | .incDec isDec dst s => execIncDec isDec dst s
  | .incDecReg isDec n s => execIncDecReg isDec n s
  | .apxAlu op ndd src1 src2 s nf => executeApxAlu op ndd src1 src2 s nf
  | .apxGroup1Imm op ndd src imm s nf => executeApxGroup1Imm op ndd src imm s nf
  | .apxIncDec isDec ndd src s nf => executeApxIncDec isDec ndd src s nf
  | .other settles effect => do
    if settles then modifyFlags FlagRegs.materializeFlags
    runEffect FlagRegs.settled effect

/-- One instruction on the direct vCPU. A fault ends the run. -/
def Instr.exec (i : Instr μ ε) (c : Cpu μ FlagRegs) : Outcome (Cpu μ FlagRegs) ε :=
  i.command.outcome c

end Direct

section Architecture

end Architecture

/-- The architectural state that a direct vCPU stands for: its flags materialised. -/
def Cpu.settled (c : Cpu μ FlagRegs) : Cpu μ Status := ⟨c.regs, c.mem, c.flags.settled⟩

section Mirror

open Command

variable {c : Cpu μ FlagRegs} {s : OpSize}

end Mirror

section Flags

variable {s : OpSize} {a b result : Word}

/-- The operation carries or borrows at its size; logical operations never do wrong here. -/
def ApxAluOp.Carries {w : Nat} (op : ApxAluOp) (a b : BitVec w) : Prop :=
  match op with
  | .add => a.uaddOverflow b = true
  | .sub => a.usubOverflow b = true
  | .or | .and | .xor => True

theorem ApxAluOp.settled_updateFlagsAlu (op : ApxAluOp) (f : FlagRegs) (ha : a.toNat < 2 ^ s.bits)
    (hb : b.toNat < 2 ^ s.bits ∨ op.Carries (s.cut a) (s.cut b)) :
    (f.updateFlagsAlu (op.legacy.apply a b) a b s op).settled =
      op.legacy.status (s.cut a) (s.cut b) := by
  cases op with
  | add => exact f.settled_updateFlagsAlu_add ha hb
  | sub => exact f.settled_updateFlagsAlu_sub ha hb
  | or =>
    exact (f.settled_updateFlagsAlu .or).trans
      (by rw [legacy, AluOp.apply, OpSize.cut, BitVec.setWidth_or]; rfl)
  | and =>
    exact (f.settled_updateFlagsAlu .and).trans
      (by rw [legacy, AluOp.apply, OpSize.cut, BitVec.setWidth_and]; rfl)
  | xor =>
    exact (f.settled_updateFlagsAlu .xor).trans
      (by rw [legacy, AluOp.apply, OpSize.cut, BitVec.setWidth_xor]; rfl)

end Flags

section Simulation

open Command

variable {c : Cpu μ FlagRegs} {s : OpSize}

end Simulation

section Samples

instance : OperandMemory FlatMem Word where
  load m a s :=
    match m.load a (s.bits / 8) with
    | some v => (.ok (BitVec.ofNat s.bits v), m)
    | none => (.error a, m)
  store m a s v :=
    match m.store a (s.bits / 8) v.toNat with
    | (m', true) => (.ok (), m')
    | (m', false) => (.error a, m')

end Samples

end Rax.X86

import Rax.Lib.Command
import Rax.Lib.FlatMem

/-!
# Exception entry and return of the Cortex-M

`take_exception` and `exception_return` of `cortex_m/cpu.rs`, with the operations of the interrupt
controller that they use. Memory is any implementation of the memory trait; the flat one is given.
A failed access leaves the changes made before it.
-/

namespace Rax.CortexM

/-- Word accesses of a memory. A failed write may have changed the memory. -/
class ArmMemory (μ : Type) (ε : outParam Type) where
  readU32 : μ → BitVec 32 → Except ε (BitVec 32)
  writeU32 : μ → BitVec 32 → BitVec 32 → Except ε Unit × μ

inductive MemoryError
  | outOfBounds (addr : Word) (size : Nat)
  deriving DecidableEq, Repr

/-- Little-endian memory at a base address, without alignment checks. -/
structure FlatMemory where
  base : Word
  data : FlatMem

namespace FlatMemory

/-- The offset of an access that lies inside the memory. -/
def translate (m : FlatMemory) (addr : Word) (size : Nat) : Except MemoryError Word :=
  if addr < m.base ∨ ¬ m.data.Fits (addr - m.base) size then .error (.outOfBounds addr size)
  else .ok (addr - m.base)

def readU32 (m : FlatMemory) (addr : BitVec 32) : Except MemoryError (BitVec 32) :=
  match m.translate (addr.setWidth 64) 4 with
  | .ok offset => .ok (BitVec.ofNat 32 (m.data.value offset.toNat 4))
  | .error e => .error e

def writeU32 (m : FlatMemory) (addr value : BitVec 32) : Except MemoryError Unit × FlatMemory :=
  match m.translate (addr.setWidth 64) 4 with
  | .ok offset => (.ok (), { m with data := m.data.put offset.toNat 4 value.toNat })
  | .error e => (.error e, m)

instance : ArmMemory FlatMemory MemoryError where
  readU32 := readU32
  writeU32 := writeU32

end FlatMemory

/-! ## Interrupt controller -/

structure Nvic where
  numInterrupts : Nat
  pending : Fin 16 → BitVec 32
  active : Fin 16 → BitVec 32
  /-- The executing exception, zero in thread mode. -/
  currentException : BitVec 16
  excReturn : BitVec 32
  implemented : numInterrupts ≤ 496

namespace Nvic

/-- The word of a bit array that holds an implemented interrupt. -/
def wordOf (n : Nvic) {irq : Nat} (h : irq < n.numInterrupts) : Fin 16 :=
  ⟨irq / 32, Nat.div_lt_of_lt_mul (Nat.lt_of_lt_of_le h (Nat.le_trans n.implemented
    (Nat.le_add_right 496 16)))⟩

def setActive (n : Nvic) (irq : Nat) : Nvic :=
  if h : irq < n.numInterrupts then
    let w := n.wordOf h
    { n with active := Function.update n.active w (n.active w ||| 1#32 <<< (irq % 32)) }
  else n

def clearActive (n : Nvic) (irq : Nat) : Nvic :=
  if h : irq < n.numInterrupts then
    let w := n.wordOf h
    { n with active := Function.update n.active w (n.active w &&& ~~~(1#32 <<< (irq % 32))) }
  else n

def clearPending (n : Nvic) (irq : Nat) : Nvic :=
  if h : irq < n.numInterrupts then
    let w := n.wordOf h
    { n with pending := Function.update n.pending w (n.pending w &&& ~~~(1#32 <<< (irq % 32))) }
  else n

def enterException (n : Nvic) (num : BitVec 16) : Nvic :=
  let n := { n with currentException := num }
  if 16 ≤ num.toNat then (n.setActive (num.toNat - 16)).clearPending (num.toNat - 16) else n

def returnFromException (n : Nvic) : Nvic :=
  let n := if 16 ≤ n.currentException.toNat then n.clearActive (n.currentException.toNat - 16)
    else n
  { n with currentException := 0 }

end Nvic

/-! ## EXC_RETURN -/

namespace ExcReturn

def handlerMsp : BitVec 32 := 0xFFFFFFF1
def threadMsp : BitVec 32 := 0xFFFFFFF9
def threadPsp : BitVec 32 := 0xFFFFFFFD

def isThreadMode (v : BitVec 32) : Bool := v &&& 0x8 != 0
def usesPsp (v : BitVec 32) : Bool := v &&& 0x4 != 0
def fpuActive (v : BitVec 32) : Bool := v &&& 0x10 == 0

end ExcReturn

/-! ## Processor -/

/-- The floating-point unit, as far as exceptions look at it. -/
structure Vfp where
  fpexc : BitVec 32
  deriving DecidableEq, Repr

def Vfp.isEnabled (v : Vfp) : Bool := v.fpexc &&& 0x40000000 != 0

structure Cpu (μ : Type) where
  regs : Fin 13 → BitVec 32
  spMain : BitVec 32
  spProcess : BitVec 32
  lr : BitVec 32
  pc : BitVec 32
  xpsr : BitVec 32
  faultmask : Bool
  control : BitVec 8
  threadMode : Bool
  currentException : BitVec 16
  memory : μ
  nvic : Nvic
  vtor : BitVec 32
  vfp : Option Vfp

def exceptionFrameSize : BitVec 32 := 32
def exceptionFrameSizeFpu : BitVec 32 := 104

/-! The numbers of the registers in a frame. -/

def r0 : Fin 13 := ⟨0, Nat.le_add_left 1 12⟩
def r1 : Fin 13 := ⟨1, Nat.le_add_left 2 11⟩
def r2 : Fin 13 := ⟨2, Nat.le_add_left 3 10⟩
def r3 : Fin 13 := ⟨3, Nat.le_add_left 4 9⟩
def r12 : Fin 13 := ⟨12, Nat.le_refl 13⟩

namespace Cpu

variable {μ : Type}

def usesPsp (c : Cpu μ) : Bool := c.threadMode && c.control &&& 0x2 != 0

def currentSp (c : Cpu μ) : BitVec 32 := if c.usesPsp then c.spProcess else c.spMain

def setCurrentSp (c : Cpu μ) (value : BitVec 32) : Cpu μ :=
  if c.usesPsp then { c with spProcess := value } else { c with spMain := value }

def setReg (c : Cpu μ) (n : Fin 13) (value : BitVec 32) : Cpu μ :=
  { c with regs := Function.update c.regs n value }

def isFpuActive (c : Cpu μ) : Bool := c.vfp.any Vfp.isEnabled

/-- The bytes reserved on entry. -/
def frameSize (c : Cpu μ) : BitVec 32 :=
  if c.vfp.isSome && c.isFpuActive then exceptionFrameSizeFpu else exceptionFrameSize

/-- Where an entry puts its frame. -/
def frameBase (c : Cpu μ) : BitVec 32 := (c.currentSp - c.frameSize) &&& ~~~0x7#32

/-- The words of an exception frame, lowest address first. -/
def frameWords (c : Cpu μ) : List (BitVec 32) :=
  [c.regs r0, c.regs r1, c.regs r2, c.regs r3, c.regs r12, c.lr, c.pc, c.xpsr]

/-- The value that an entry leaves in LR. -/
def excReturn (c : Cpu μ) : BitVec 32 :=
  if c.threadMode then
    if c.usesPsp then ExcReturn.threadPsp else ExcReturn.threadMsp
  else ExcReturn.handlerMsp

/-- Switch to handler mode. The fault mask survives only the entry to NMI. -/
def switchToHandler (c : Cpu μ) (num : BitVec 16) : Cpu μ :=
  { c with
    lr := c.excReturn
    nvic := { c.nvic with excReturn := c.excReturn }
    threadMode := false
    currentException := num
    faultmask := if num ≠ 2 then false else c.faultmask }

def startHandler (c : Cpu μ) (num : BitVec 16) (handler : BitVec 32) : Cpu μ :=
  { c with
    pc := handler &&& ~~~1
    xpsr := (c.xpsr &&& 0xFFFFFE00) ||| num.setWidth 32
    nvic := c.nvic.enterException num }

/-- The end of a return, after the frame has been read from `sp`. -/
def finishReturn (c : Cpu μ) (excReturn sp : BitVec 32) : Cpu μ :=
  let frameSize := if c.vfp.isSome && ExcReturn.fpuActive excReturn then exceptionFrameSizeFpu
    else exceptionFrameSize
  let newSp := sp + frameSize
  let toThread := ExcReturn.isThreadMode excReturn
  let xpsr := if toThread then c.xpsr &&& 0xFFFFFE00 else c.xpsr
  { c with
    spProcess := if ExcReturn.usesPsp excReturn then newSp else c.spProcess
    spMain := if ExcReturn.usesPsp excReturn then c.spMain else newSp
    threadMode := toThread
    xpsr := xpsr
    nvic := c.nvic.returnFromException
    currentException := if toThread then 0 else (xpsr &&& 0x1FF).setWidth 16 }

end Cpu

section Commands

variable {μ ε : Type} [ArmMemory μ ε]

def memReadU32 (addr : BitVec 32) : Command ε (Cpu μ) (BitVec 32) := fun c =>
  match ArmMemory.readU32 c.memory addr with
  | .ok v => .ok v c
  | .error e => .error e c

def memWriteU32 (addr value : BitVec 32) : Command ε (Cpu μ) Unit := fun c =>
  match ArmMemory.writeU32 c.memory addr value with
  | (.ok _, m) => .ok () { c with memory := m }
  | (.error e, m) => .error e { c with memory := m }

/-- Store words at consecutive addresses. -/
def storeWords : BitVec 32 → List (BitVec 32) → Command ε (Cpu μ) Unit
  | _, [] => pure ()
  | addr, w :: ws => do
    memWriteU32 addr w
    storeWords (addr + 4) ws

def takeException (num : BitVec 16) : Command ε (Cpu μ) Unit := do
  let c ← get
  storeWords c.frameBase c.frameWords
  modify fun c' => (c'.setCurrentSp c.frameBase).switchToHandler num
  let handler ← memReadU32 (c.vtor + num.setWidth 32 * 4)
  modify fun c => c.startHandler num handler

/-- Read a word of the frame into its register. -/
def popWord (addr : BitVec 32) (put : Cpu μ → BitVec 32 → Cpu μ) : Command ε (Cpu μ) Unit := do
  let v ← memReadU32 addr
  modify fun c => put c v

def exceptionReturn (excReturn : BitVec 32) : Command ε (Cpu μ) Unit := do
  let c ← get
  let sp := if ExcReturn.usesPsp excReturn then c.spProcess else c.spMain
  popWord sp fun c v => c.setReg r0 v
  popWord (sp + 4) fun c v => c.setReg r1 v
  popWord (sp + 8) fun c v => c.setReg r2 v
  popWord (sp + 12) fun c v => c.setReg r3 v
  popWord (sp + 16) fun c v => c.setReg r12 v
  popWord (sp + 20) fun c v => { c with lr := v }
  popWord (sp + 24) fun c v => { c with pc := v }
  popWord (sp + 28) fun c v => { c with xpsr := v }
  modify fun c => c.finishReturn excReturn sp

/-! ## What a return did -/

open Command

theorem memReadU32_ok {a v : BitVec 32} {c c' : Cpu μ} (h : memReadU32 a c = .ok v c') :
    ArmMemory.readU32 c.memory a = .ok v ∧ c' = c := by
  unfold memReadU32 at h
  split at h
  · rename_i w hw
    injection h with hv hc
    exact ⟨hv ▸ hw, hc.symm⟩
  · cases h

theorem popWord_ok {a : BitVec 32} {put : Cpu μ → BitVec 32 → Cpu μ} {c c' : Cpu μ}
    (h : popWord a put c = .ok () c') :
    ∃ v, ArmMemory.readU32 c.memory a = .ok v ∧ c' = put c v := by
  obtain ⟨v, c₁, hread, hput⟩ := bind_ok_iff.mp h
  obtain ⟨hv, rfl⟩ := memReadU32_ok hread
  injection hput with _ hc
  exact ⟨v, hv, hc.symm⟩

/-- The registers of a frame. -/
def Cpu.loadFrame (c : Cpu μ) (v0 v1 v2 v3 v12 lr pc xpsr : BitVec 32) : Cpu μ :=
  { ((((c.setReg r0 v0).setReg r1 v1).setReg r2 v2).setReg r3 v3).setReg r12 v12 with lr, pc, xpsr }

/-- A return that succeeds has read the eight words of its frame. -/
theorem exceptionReturn_inv {ret sp : BitVec 32} {c c' : Cpu μ}
    (hsp : (if ExcReturn.usesPsp ret then c.spProcess else c.spMain) = sp)
    (h : (exceptionReturn ret : Command ε (Cpu μ) Unit) c = .ok () c') :
    ∃ v0 v1 v2 v3 v12 vlr vpc vxpsr,
      (ArmMemory.readU32 c.memory sp = .ok v0 ∧ ArmMemory.readU32 c.memory (sp + 4) = .ok v1 ∧
        ArmMemory.readU32 c.memory (sp + 8) = .ok v2 ∧
        ArmMemory.readU32 c.memory (sp + 12) = .ok v3 ∧
        ArmMemory.readU32 c.memory (sp + 16) = .ok v12 ∧
        ArmMemory.readU32 c.memory (sp + 20) = .ok vlr ∧
        ArmMemory.readU32 c.memory (sp + 24) = .ok vpc ∧
        ArmMemory.readU32 c.memory (sp + 28) = .ok vxpsr) ∧
      c' = (c.loadFrame v0 v1 v2 v3 v12 vlr vpc vxpsr).finishReturn ret sp := by
  unfold exceptionReturn at h
  rw [bind_get, hsp] at h
  obtain ⟨_, c₁, h0, h⟩ := bind_ok_iff.mp h
  obtain ⟨v0, hv0, rfl⟩ := popWord_ok h0
  obtain ⟨_, c₁, h1, h⟩ := bind_ok_iff.mp h
  obtain ⟨v1, hv1, rfl⟩ := popWord_ok h1
  obtain ⟨_, c₁, h2, h⟩ := bind_ok_iff.mp h
  obtain ⟨v2, hv2, rfl⟩ := popWord_ok h2
  obtain ⟨_, c₁, h3, h⟩ := bind_ok_iff.mp h
  obtain ⟨v3, hv3, rfl⟩ := popWord_ok h3
  obtain ⟨_, c₁, h12, h⟩ := bind_ok_iff.mp h
  obtain ⟨v12, hv12, rfl⟩ := popWord_ok h12
  obtain ⟨_, c₁, hlr, h⟩ := bind_ok_iff.mp h
  obtain ⟨vlr, hvlr, rfl⟩ := popWord_ok hlr
  obtain ⟨_, c₁, hpc, h⟩ := bind_ok_iff.mp h
  obtain ⟨vpc, hvpc, rfl⟩ := popWord_ok hpc
  obtain ⟨_, c₁, hxpsr, h⟩ := bind_ok_iff.mp h
  obtain ⟨vxpsr, hvxpsr, rfl⟩ := popWord_ok hxpsr
  injection h with _ hc
  exact ⟨v0, v1, v2, v3, v12, vlr, vpc, vxpsr,
    ⟨hv0, hv1, hv2, hv3, hv12, hvlr, hvpc, hvxpsr⟩, hc.symm⟩

end Commands

end Rax.CortexM

import Rax.CortexM.DataProcessing

/-!
# Branches and block transfers of the Cortex-M

The handlers of `cortex_m/cpu.rs` for branches, calls, and transfers of several registers, with the
dispatch that leads to them and `execute_instruction` around them. The other groups of instructions
are parameters. Sums of addresses wrap, as in a release build.
-/

namespace Rax.CortexM

inductive CpuExit
  | cont
  | svc (imm : BitVec 32)
  | breakpoint (imm : BitVec 32)
  | wfe
  | wfi
  deriving DecidableEq, Repr

inductive ExecError (ε : Type)
  | memory (e : ε)
  | undefinedInstruction (insn : BitVec 32)
  | unimplemented (text : String)
  deriving DecidableEq, Repr

/-- An instruction as it was fetched. -/
inductive Fetched
  | thumb16 (insn : BitVec 16)
  | thumb32 (insn : BitVec 32)
  deriving DecidableEq, Repr

def Fetched.size : Fetched → BitVec 32
  | thumb16 _ => 2
  | thumb32 _ => 4

/-- Part of the execution of an instruction. -/
abbrev Exec (μ ε α : Type) := Command (ExecError ε) (Cpu μ) α

variable {μ ε : Type}

/-- The condition of a branch under the flags. -/
def Cpu.conditionPassed (c : Cpu μ) (cond : Nat) : Bool :=
  let result :=
    match cond / 2 with
    | 0b000 => c.getZ
    | 0b001 => c.getC
    | 0b010 => c.getN
    | 0b011 => c.getV
    | 0b100 => c.getC && !c.getZ
    | 0b101 => c.getN == c.getV
    | 0b110 => c.getN == c.getV && !c.getZ
    | _ => true
  if cond % 2 = 1 ∧ cond ≠ 0xF then !result else result

/-- Continue elsewhere. -/
def Cpu.goTo (c : Cpu μ) (target : BitVec 32) : Cpu μ := { c with pc := target }

/-- A register number that stands at a bit. -/
def regAt16 (insn : BitVec 16) (pos : Nat) (mask : BitVec 16) : Nat := ((insn >>> pos) &&& mask).toNat

def regAt32 (insn : BitVec 32) (pos : Nat) : Nat := ((insn >>> pos) &&& 0xF#32).toNat

/-! ## Branches within the code -/

def execConditionalBranch (insn : BitVec 16) : Exec μ ε CpuExit := fun c =>
  if (insn >>> 8) &&& 0xF = 0xE then .error (.undefinedInstruction (insn.setWidth 32)) c
  else if (insn >>> 8) &&& 0xF = 0xF then .ok (.svc ((insn &&& 0xFF).setWidth 32)) c
  else if c.conditionPassed ((insn >>> 8) &&& 0xF).toNat then
    .ok .cont (c.goTo (c.pc + 2#32 + (((insn &&& 0xFF).setWidth 8).signExtend 32 <<< 1)))
  else .ok .cont c

def execUnconditionalBranch (insn : BitVec 16) : Exec μ ε CpuExit := fun c =>
  .ok .cont (c.goTo (c.pc + 2#32 + (((insn &&& 0x7FF).setWidth 32 <<< 21).sshiftRight 20)))

/-- The fields of a 32-bit branch that are single bits. -/
def bitField (insn : BitVec 32) (pos : Nat) : BitVec 32 := (insn >>> pos) &&& 1#32

/-- The offset of B<cond>.W; a complement of a one-bit field sets all bits above it. -/
def condOffset (insn : BitVec 32) : BitVec 32 :=
  ((bitField insn 26 <<< 20) ||| ((bitField insn 11 ^^^ ~~~bitField insn 26) <<< 19) |||
    ((bitField insn 13 ^^^ ~~~bitField insn 26) <<< 18) ||| (((insn >>> 16) &&& 0x3F) <<< 12) |||
    ((insn &&& 0x7FF) <<< 1)) <<< 11 |>.sshiftRight 11

/-- The offset of B.W and BL. -/
def wideOffset (insn : BitVec 32) : BitVec 32 :=
  ((bitField insn 26 <<< 24) |||
    ((~~~(bitField insn 13 ^^^ bitField insn 26) &&& 1) <<< 23) |||
    ((~~~(bitField insn 11 ^^^ bitField insn 26) &&& 1) <<< 22) |||
    (((insn >>> 16) &&& 0x3FF) <<< 12) ||| ((insn &&& 0x7FF) <<< 1)) <<< 7 |>.sshiftRight 7

def execBranchesMisc32 (insn : BitVec 32) : Exec μ ε CpuExit := fun c =>
  if (insn >>> 12) &&& 0x5 = 0 ∧ (insn >>> 20) &&& 0x38 ≠ 0x38 then
    if c.conditionPassed ((insn >>> 22) &&& 0xF).toNat then
      .ok .cont (c.goTo (c.pc + condOffset insn))
    else .ok .cont c
  else if (insn >>> 12) &&& 0x5 = 0x1 then .ok .cont (c.goTo (c.pc + wideOffset insn))
  else if (insn >>> 12) &&& 0x5 = 0x5 then
    .ok .cont ({ c with lr := c.pc ||| 1 }.goTo (c.pc + wideOffset insn))
  else .error (.unimplemented "32-bit branch/misc") c

section Handlers

variable [ArmMemory μ ε]

/-- A command on memory, as part of an instruction. -/
def ofMemory {α : Type} (x : Command ε (Cpu μ) α) : Exec μ ε α := fun c =>
  match x c with
  | .ok a c => .ok a c
  | .error e c => .error (.memory e) c

def readWord (addr : BitVec 32) : Exec μ ε (BitVec 32) :=
  ofMemory (memReadU32 addr)

def writeWord (addr value : BitVec 32) : Exec μ ε Unit :=
  ofMemory (memWriteU32 addr value)

/-- Return from an exception, as an instruction. -/
def execExceptionReturn (excReturn : BitVec 32) : Exec μ ε CpuExit := do
  ofMemory (exceptionReturn excReturn)
  pure .cont

/-- A branch to a value that may be an EXC_RETURN. -/
def execBranchExchange (value : BitVec 32) : Exec μ ε CpuExit := fun c =>
  if 0xF0000000#32 ≤ value then execExceptionReturn value c
  else .ok .cont (c.goTo (value &&& ~~~1))

def execSpecialData (insn : BitVec 16) : Exec μ ε CpuExit := fun c =>
  let rm := regAt16 insn 3 0xF
  let rdn := ((insn &&& 0x7#16) ||| (((insn >>> 7) &&& 1#16) <<< 3)).toNat
  match ((insn >>> 8) &&& 0x3).toNat with
  | 0b00 => .ok .cont (c.putReg rdn (c.reg rdn + c.reg rm))
  | 0b01 =>
    let (result, borrow) := overflowingSub (c.reg rdn) (c.reg rm)
    .ok .cont (((c.updateNz result).setC (!borrow)).setV
      (subOverflows (c.reg rdn) (c.reg rm) result))
  | 0b10 => .ok .cont (c.putReg rdn (c.reg rm))
  | _ =>
    -- BX and BLX; the counter is already past the instruction
    execBranchExchange (c.reg rm)
      (if (insn >>> 7) &&& 1 ≠ 0 then { c with lr := (c.pc - 2) ||| 1 } else c)

/-! ## Block transfers -/

/-- The registers of a list below `n`, lowest first. -/
def listed (list : BitVec 16) (n : Nat) : List Nat := (List.range n).filter list.getLsbD

/-- Store registers upwards from an address. -/
def storeLoop : List Nat → BitVec 32 → Exec μ ε Unit
  | [], _ => pure ()
  | i :: is, addr => do
    let c ← get
    writeWord addr (c.reg i)
    storeLoop is (addr + 4)

/-- Load registers upwards from an address. -/
def loadLoop : List Nat → BitVec 32 → Exec μ ε Unit
  | [], _ => pure ()
  | i :: is, addr => do
    let value ← readWord addr
    modify fun c => c.putReg i value
    loadLoop is (addr + 4)

/-- The address after some words. -/
def afterWords (addr : BitVec 32) (is : List Nat) : BitVec 32 :=
  addr + BitVec.ofNat 32 is.length * 4

/-- LR stands at bit 8 of the encoding and at bit 14 of the list. -/
def pushList (insn : BitVec 16) : List Nat :=
  listed ((insn &&& 0xFF) ||| (((insn >>> 8) &&& 1) <<< 14)) 15

/-- The stack pointer moves before the words are stored. -/
def execPush (insn : BitVec 16) : Exec μ ε CpuExit := do
  let c ← get
  let addr := c.currentSp - BitVec.ofNat 32 (pushList insn).length * 4
  modify fun c => c.setCurrentSp addr
  storeLoop (pushList insn) addr
  pure .cont

/-- The registers R0 to R7 of a list. -/
def lowList (insn : BitVec 16) : List Nat := listed (insn &&& 0xFF) 8

def execPop (insn : BitVec 16) : Exec μ ε CpuExit := do
  let c ← get
  loadLoop (lowList insn) c.currentSp
  if (insn >>> 8) &&& 1 ≠ 0 then
    let value ← readWord (afterWords c.currentSp (lowList insn))
    modify fun c' => c'.setCurrentSp (afterWords c.currentSp (lowList insn) + 4)
    execBranchExchange value
  else
    modify fun c' => c'.setCurrentSp (afterWords c.currentSp (lowList insn))
    pure .cont

def execStm (insn : BitVec 16) : Exec μ ε CpuExit := do
  let c ← get
  let rn := regAt16 insn 8 0x7
  storeLoop (lowList insn) (c.reg rn)
  modify fun c' => c'.putReg rn (afterWords (c.reg rn) (lowList insn))
  pure .cont

def execLdm (insn : BitVec 16) : Exec μ ε CpuExit := do
  let c ← get
  let rn := regAt16 insn 8 0x7
  loadLoop (lowList insn) (c.reg rn)
  if rn ∈ lowList insn then pure .cont
  else
    modify fun c' => c'.putReg rn (afterWords (c.reg rn) (lowList insn))
    pure .cont

/-- PC is loaded last. The words of the modes that decrement end below the base. -/
def multipleStart (insn : BitVec 32) (base : BitVec 32) (count : Nat) : BitVec 32 :=
  if (insn >>> 23) &&& 1 = 0 then base - BitVec.ofNat 32 count * 4 else base

/-- What the base is after the transfer. -/
def multipleEnd (insn : BitVec 32) (base : BitVec 32) (count : Nat) : BitVec 32 :=
  if (insn >>> 23) &&& 1 = 0 then base - BitVec.ofNat 32 count * 4
  else base + BitVec.ofNat 32 count * 4

def fullList (insn : BitVec 32) : List Nat := listed (insn.setWidth 16) 16

/-- The registers of a list but for PC. -/
def listBelowPc (insn : BitVec 32) : List Nat := listed (insn.setWidth 16) 15

/-- Load PC, without a look at what is loaded. -/
def loadPc (addr : BitVec 32) : Exec μ ε Unit := do
  let value ← readWord addr
  modify fun c => c.goTo (value &&& ~~~1)

def execLoadStoreMultiple32 (insn : BitVec 32) : Exec μ ε CpuExit := do
  let c ← get
  let rn := regAt32 insn 16
  let load := (insn >>> 20) &&& 1 ≠ 0
  if fullList insn = [] then throw (.undefinedInstruction insn)
  let start := multipleStart insn (c.reg rn) (fullList insn).length
  if load then
    loadLoop (listBelowPc insn) start
    if (15 : Nat) ∈ fullList insn then loadPc (afterWords start (listBelowPc insn))
  else storeLoop (fullList insn) start
  if (insn >>> 21) &&& 1 ≠ 0 ∧ ¬(load ∧ rn ∈ fullList insn) then
    modify fun c' => c'.putReg rn (multipleEnd insn (c.reg rn) (fullList insn).length)
  pure .cont

/-! ## Loads of one word -/

/-- The address, and what the base becomes. -/
def computeAddr32 (insn : BitVec 32) (rn : Nat) (c : Cpu μ) :
    Option (BitVec 32 × Option (BitVec 32)) :=
  if (insn >>> 23) &&& 1 ≠ 0 then some (c.reg rn + (insn &&& 0xFFF), none)
  else if (insn >>> 11) &&& 1 ≠ 0 then
    let offset := if (insn >>> 9) &&& 1 ≠ 0 then insn &&& 0xFF else -(insn &&& 0xFF)
    if (insn >>> 10) &&& 1 ≠ 0 then
      some (c.reg rn + offset, if (insn >>> 8) &&& 1 ≠ 0 then some (c.reg rn + offset) else none)
    else some (c.reg rn, some (c.reg rn + offset))
  else if (insn >>> 8) &&& 0xF = 0 then
    some (c.reg rn + (c.reg (regAt32 insn 0) <<< ((insn >>> 4) &&& 0x3)), none)
  else none

/-- The new value of a base, if there is one. -/
def writeBack (rn : Nat) (value : Option (BitVec 32)) (c : Cpu μ) : Cpu μ :=
  match value with
  | some v => c.putReg rn v
  | none => c

def execLoadWord32 (insn : BitVec 32) : Exec μ ε CpuExit := do
  let c ← get
  let rn := regAt32 insn 16
  match computeAddr32 insn rn c with
  | none => throw (.undefinedInstruction insn)
  | some (addr, base) =>
    let value ← readWord addr
    modify fun c => writeBack rn base (c.putReg (regAt32 insn 12) value)
    pure .cont

/-! ## Dispatch -/

/-- The groups of instructions that are not modelled here. -/
structure Others (μ ε : Type) where
  thumb16 : BitVec 16 → Exec μ ε CpuExit
  thumb32 : BitVec 32 → Exec μ ε CpuExit

/-- PUSH without LR, and POP. -/
def execMisc (others : Others μ ε) (insn : BitVec 16) : Exec μ ε CpuExit :=
  let op := ((insn >>> 5) &&& 0x7F).toNat
  if 0b0100000 ≤ op ∧ op ≤ 0b0100111 then execPush insn
  else if 0b1100000 ≤ op ∧ op ≤ 0b1101111 then execPop insn
  else others.thumb16 insn

def executeThumb16 (others : Others μ ε) (insn : BitVec 16) : Exec μ ε CpuExit :=
  match (insn >>> 10).toNat with
  | 0b010001 => execSpecialData insn
  | 0b101100 | 0b101101 | 0b101110 | 0b101111 => execMisc others insn
  | 0b110000 | 0b110001 => execStm insn
  | 0b110010 | 0b110011 => execLdm insn
  | 0b110100 | 0b110101 | 0b110110 | 0b110111 => execConditionalBranch insn
  | 0b111000 | 0b111001 => execUnconditionalBranch insn
  | _ => others.thumb16 insn

def executeThumb32 (others : Others μ ε) (insn : BitVec 32) : Exec μ ε CpuExit :=
  let op2 := (insn >>> 20) &&& 0x7F
  match ((insn >>> 27) &&& 0x3).toNat with
  | 0b01 => if op2 &&& 0x64 = 0 then execLoadStoreMultiple32 insn else others.thumb32 insn
  | 0b10 => if (insn >>> 15) &&& 1 = 0 then others.thumb32 insn else execBranchesMisc32 insn
  | 0b11 =>
    if op2 &&& 0x71 = 0 then others.thumb32 insn
    else if op2 &&& 0x67 = 0x05 then execLoadWord32 insn
    else others.thumb32 insn
  | _ => others.thumb32 insn

def execute (others : Others μ ε) : Fetched → Exec μ ε CpuExit
  | .thumb16 insn => executeThumb16 others insn
  | .thumb32 insn => executeThumb32 others insn

/-- The counter goes back if an instruction fails. -/
def restorePc (pc : BitVec 32) :
    EStateM.Result (ExecError ε) (Cpu μ) CpuExit → EStateM.Result (ExecError ε) (Cpu μ) CpuExit
  | .ok exit c => .ok exit c
  | .error e c => .error e (c.goTo pc)

/-- The counter moves past the instruction before it is executed. -/
def executeInstruction (others : Others μ ε) (f : Fetched) : Exec μ ε CpuExit := fun c =>
  restorePc c.pc (execute others f (c.goTo (c.pc + f.size)))

end Handlers

end Rax.CortexM

import Rax.Lib.Bytes

/-!
# The local APIC

The registers as they are read, the end of an interrupt and the timer with its divisor and mode.
The counter is not kept but computed from the time that has passed.
-/

namespace Rax.Devices

inductive IpiTarget
  | toSelf
  | allIncludingSelf
  | allExcludingSelf
  | physical (id : Byte)
  | logical (destination : Byte)
  deriving DecidableEq

inductive IpiRequest
  | fixed (vector : Byte) (target : IpiTarget)
  | lowestPriority (vector : Byte) (target : IpiTarget)
  | nmi (target : IpiTarget)
  | smi (target : IpiTarget)
  | init (target : IpiTarget)
  | sipi (vector : Byte) (target : IpiTarget)
  deriving DecidableEq

/-- The registers, the three 256-bit ones by their words. -/
inductive LapicReg
  | id | version | tpr | apr | ppr | eoi | rrd | ldr | dfr | svr
  | isr (word : Fin 8)
  | tmr (word : Fin 8)
  | irr (word : Fin 8)
  | esr | icrLow | icrHigh
  | lvtTimer | lvtThermal | lvtPmc | lvtLint0 | lvtLint1 | lvtError
  | timerIcr | timerCcr | timerDcr

@[ext]
structure LocalApic where
  id : Reg
  version : Reg := 0x00050014
  tpr : Reg := 0
  ldr : Reg := 0
  dfr : Reg := 0xFFFFFFFF
  svr : Reg := 0x1FF
  isr : Fin 8 → Reg := fun _ => 0
  tmr : Fin 8 → Reg := fun _ => 0
  irr : Fin 8 → Reg := fun _ => 0
  esr : Reg := 0
  icr : Word := 0
  lvtTimer : Reg := 0x10000
  lvtThermal : Reg := 0x10000
  lvtPmc : Reg := 0x10000
  lvtLint0 : Reg := 0x700
  lvtLint1 : Reg := 0x400
  lvtError : Reg := 0x10000
  timerInitialCount : Reg := 0
  timerCurrentCount : Reg := 0
  timerDivideConfig : Reg := 0
  timerStart : Option Nat := none
  timerPending : Bool := false
  pendingIpi : Option IpiRequest := none
  nmiPending : Bool := false

namespace LocalApic

def new (apicId : Reg) : LocalApic where
  id := apicId <<< 24

/-- The highest bit set in a 256-bit register. -/
def highestBit (words : Fin 8 → Reg) : Option (Fin 8 × Nat) :=
  (List.finRange 8).reverse.findSome? fun i =>
    ((List.range 32).reverse.find? fun bit => (words i).getLsbD bit).map (i, ·)

/-- End of interrupt: the highest in-service bit goes. -/
def eoi (s : LocalApic) : LocalApic :=
  match highestBit s.isr with
  | none => s
  | some (i, bit) =>
    { s with isr := Function.update s.isr i (s.isr i &&& ~~~BitVec.twoPow 32 bit) }

def timerDivisor (s : LocalApic) : Nat :=
  let bits := (s.timerDivideConfig &&& 0x3) ||| ((s.timerDivideConfig >>> 1) &&& 0x4)
  if bits = 0 then 2
  else if bits = 1 then 4
  else if bits = 2 then 8
  else if bits = 3 then 16
  else if bits = 4 then 32
  else if bits = 5 then 64
  else if bits = 6 then 128
  else 1

def timerMode (s : LocalApic) : BitVec 2 := (s.lvtTimer >>> 17).setWidth 2

/-- Ticks of the divided 1 GHz clock since the timer was started, in 64-bit arithmetic. -/
def elapsedTicks (s : LocalApic) (start now : Nat) : Nat :=
  (now - start) % 2 ^ 64 * (1000000000 / s.timerDivisor) % 2 ^ 64 / 1000000000

/-- The current count at a time. -/
def timerCount (s : LocalApic) (now : Nat) : Reg :=
  if s.timerInitialCount = 0 then 0
  else
    match s.timerStart with
    | none => s.timerCurrentCount
    | some start =>
      let ticks := s.elapsedTicks start now
      let initial := s.timerInitialCount.toNat
      if s.timerMode = 0 then
        if initial ≤ ticks then 0 else BitVec.ofNat 32 (initial - ticks)
      else if s.timerMode = 1 then BitVec.ofNat 32 (initial - ticks % initial)
      else 0

/-- Processor priority: the higher class of the task priority and the interrupt in service. -/
def processorPriority (s : LocalApic) : Reg :=
  let taskClass := ((s.tpr >>> 4) &&& 0xF).toNat
  let serviceClass :=
    match highestBit s.isr with
    | none => 0
    | some (i, bit) => (i.val * 32 + bit) / 16
  BitVec.ofNat 32 (max taskClass serviceClass) <<< 4

def readReg (s : LocalApic) (now : Nat) : LapicReg → Reg
  | .id => s.id
  | .version => s.version
  | .tpr => s.tpr
  | .ppr => s.processorPriority
  | .ldr => s.ldr
  | .dfr => s.dfr
  | .svr => s.svr
  | .isr i => s.isr i
  | .tmr i => s.tmr i
  | .irr i => s.irr i
  | .esr => s.esr
  | .icrLow => s.icr.lowHalf
  | .icrHigh => s.icr.highHalf
  | .lvtTimer => s.lvtTimer
  | .lvtThermal => s.lvtThermal
  | .lvtPmc => s.lvtPmc
  | .lvtLint0 => s.lvtLint0
  | .lvtLint1 => s.lvtLint1
  | .lvtError => s.lvtError
  | .timerIcr => s.timerInitialCount
  | .timerCcr => s.timerCount now
  | .timerDcr => s.timerDivideConfig
  | .apr | .eoi | .rrd => 0

end LocalApic

end Rax.Devices

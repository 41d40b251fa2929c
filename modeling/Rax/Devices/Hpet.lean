import Rax.Lib.Circle
import Rax.Lib.StickyBits
import Rax.Lib.Word
import Mathlib.Logic.Function.Basic

/-!
# The high precision event timer

A main counter, derived from the host clock, and three timers that compare it with a value of
their own. The device is polled: a tick looks at what the counter passed since the tick before.

Times are in nanoseconds. Routing fields and the capability bits are only stored and read.
-/

namespace Rax.Devices

namespace Hpet

def counterClkPeriodFs : Nat := 100000000

def fsPerNs : Nat := 1000000

def regGenCapId : Word := 0x000
def regGenConfig : Word := 0x010
def regGenIntStatus : Word := 0x020
def regMainCounter : Word := 0x0F0
def regTimerBase : Word := 0x100
def timerStride : Word := 0x20

/-- Enable and legacy routing. -/
def cfgMask : Word := 0x3

/-- The writable bits of a timer's configuration: trigger type, interrupt enable, periodic, value
set, 32-bit mode, route and FSB enable. -/
def tnCfgWriteMask : Word := 0x7F4E

def tnValSetCnf : Word := 0x40

/-- The routes that a timer may use, in the high half of its configuration when it is read. -/
def tnIntRouteCap : Word := 0x00F00104

end Hpet

open Hpet

structure HpetTimer where
  config : Word
  comparator : Word
  period : Word
  fsbRoute : Word
  deriving DecidableEq, Repr

namespace HpetTimer

/-- Able to be periodic, to use 64 bits and to deliver by FSB. -/
def new : HpetTimer := ⟨0x8030, BitVec.allOnes 64, 0, 0⟩

def intEnabled (t : HpetTimer) : Bool := t.config.getLsbD 2

def isPeriodic (t : HpetTimer) : Bool := t.config.getLsbD 3

end HpetTimer

structure Hpet where
  config : Word
  intStatus : Word
  timers : Fin 3 → HpetTimer
  epoch : Nat
  counterOffset : Word
  running : Bool
  lastCounter : Word

namespace Hpet

def new (now : Nat) : Hpet := ⟨0, 0, fun _ => .new, now, 0, false, 0⟩

/-- Exact in 128 bits, then cut to 64. -/
def nanosToTicks (nanos : Word) : Word :=
  BitVec.ofNat 64 (nanos.toNat * fsPerNs / counterClkPeriodFs)

def elapsedTicks (s : Hpet) (now : Nat) : Word :=
  nanosToTicks (BitVec.ofNat 64 (now - s.epoch))

def mainCounter (s : Hpet) (now : Nat) : Word :=
  if s.running then s.counterOffset + s.elapsedTicks now else s.counterOffset

/-- Revision 1, the last timer's number, a 64-bit counter, legacy routing, the vendor and the
period. -/
def capabilities : Word := 0x05F5E1008086A201

def setRunning (s : Hpet) (run : Bool) (now : Nat) : Hpet :=
  if run = s.running then s
  else if run then { s with lastCounter := s.counterOffset, epoch := now, running := true }
  else
    let counter := s.mainCounter now
    { s with counterOffset := counter, lastCounter := counter, running := false }

/-- The timer and the register in it that an offset in the timers' range means. -/
def timerIndex (offset : Word) : Nat := ((offset - regTimerBase) / timerStride).toNat

def timerSub (offset : Word) : Word := (offset - regTimerBase) % timerStride

def readTimer (t : HpetTimer) (sub : Word) : Word :=
  if sub = 0x00 then t.config ||| (tnIntRouteCap <<< 32)
  else if sub = 0x08 then t.comparator
  else if sub = 0x10 then t.fsbRoute
  else 0

def readReg (s : Hpet) (now : Nat) (offset : Word) : Word :=
  if offset = regGenCapId then capabilities
  else if offset = regGenConfig then s.config
  else if offset = regGenIntStatus then s.intStatus
  else if offset = regMainCounter then s.mainCounter now
  else if regTimerBase ≤ offset then
    if h : timerIndex offset < 3 then readTimer (s.timers ⟨timerIndex offset, h⟩) (timerSub offset)
    else 0
  else 0

def writeComparator (t : HpetTimer) (value : Word) : HpetTimer :=
  if t.isPeriodic && t.config &&& tnValSetCnf != 0 then
    { t with period := value, comparator := value, config := t.config &&& ~~~tnValSetCnf }
  else if t.isPeriodic then { t with period := value, comparator := value }
  else { t with comparator := value }

def writeTimer (t : HpetTimer) (sub value : Word) : HpetTimer :=
  if sub = 0x00 then
    { t with config := (t.config &&& ~~~tnCfgWriteMask) ||| (value &&& tnCfgWriteMask) }
  else if sub = 0x08 then writeComparator t value
  else if sub = 0x10 then { t with fsbRoute := value }
  else t

def writeReg (s : Hpet) (now : Nat) (offset value : Word) : Hpet :=
  if offset = regGenCapId then s
  else if offset = regGenConfig then
    ({ s with config := value &&& cfgMask }).setRunning ((value &&& cfgMask).getLsbD 0) now
  else if offset = regGenIntStatus then { s with intStatus := s.intStatus &&& ~~~value }
  else if offset = regMainCounter then
    { s with counterOffset := value, lastCounter := value,
             epoch := if s.running then now else s.epoch }
  else if regTimerBase ≤ offset then
    if h : timerIndex offset < 3 then
      { s with timers := Function.update s.timers ⟨timerIndex offset, h⟩
                (writeTimer (s.timers ⟨timerIndex offset, h⟩) (timerSub offset) value) }
    else s
  else s

/-- Whether a counter that goes from `prev` to `now` reaches or passes `target`. -/
def crossed (prev now target : Word) : Bool :=
  if prev ≤ now then decide (prev < target) && decide (target ≤ now)
  else decide (prev < target) || decide (target ≤ now)

/-- The first multiple of the period after `now`; the product is exact in 128 bits. -/
def periodicRearmAfter (comparator period now : Word) : Word :=
  let elapsed := (now - comparator).toNat
  let periods := elapsed / period.toNat + 1
  comparator + BitVec.ofNat 64 (periods * period.toNat)

/-- One timer of a tick. -/
def tickTimer (prev now : Word) (s : Hpet) (idx : Fin 3) : Hpet :=
  let t := s.timers idx
  if !t.intEnabled then s
  else if crossed prev now t.comparator then
    { s with
      intStatus := s.intStatus ||| (1 : Word) <<< idx.val
      timers :=
        if t.isPeriodic && t.period != 0 then
          Function.update s.timers idx
            { t with comparator := periodicRearmAfter t.comparator t.period now }
        else s.timers }
  else s

def tickAtCounter (s : Hpet) (now : Word) : Hpet :=
  (List.finRange 3).foldl (tickTimer s.lastCounter now) { s with lastCounter := now }

def tick (s : Hpet) (now : Nat) : Hpet :=
  if !s.running then s else s.tickAtCounter (s.mainCounter now)

/-! ## The bus interface -/

def hpetBase : Word := 0xFED00000

def alignedOffset (addr : Word) : Word := (addr - hpetBase) &&& ~~~7#64

def byteInReg (addr : Word) : Nat := ((addr - hpetBase) &&& 7).toNat

def read (s : Hpet) (now : Nat) (addr : Word) (n : Nat) : List Byte :=
  let bytes := Word.toLeBytes (s.readReg now (alignedOffset addr)) 8
  (List.range n).map fun i => bytes.getD (byteInReg addr + i) 0

/-- Bytes that are not written are taken from what the register reads as. -/
def write (s : Hpet) (now : Nat) (addr : Word) (data : List Byte) : Hpet :=
  s.writeReg now (alignedOffset addr)
    (putBytesAt (s.readReg now (alignedOffset addr)) (byteInReg addr) data)

end Hpet

end Rax.Devices

import Mathlib.Logic.Function.Basic
import Rax.Lib.Tally
import Rax.Lib.Word

/-!
# The interval timer

Three counters whose count and output are computed from the oscillator ticks since the counter
was loaded. Every access reads the clock anew, so an operation is given the times at which it
consults the channels. Channel 0 raises an interrupt when a tick finds that a terminal count
lies between the previous tick and now.
-/

namespace Rax.Devices

inductive AccessMode
  | lowByteOnly
  | highByteOnly
  | lowHighByte
  deriving DecidableEq

def AccessMode.rwBits : AccessMode → Byte
  | lowByteOnly => 1
  | highByteOnly => 2
  | lowHighByte => 3

inductive OperatingMode
  | interruptOnTerminalCount
  | hardwareRetriggerableOneShot
  | rateGenerator
  | squareWaveGenerator
  | softwareTriggeredStrobe
  | hardwareTriggeredStrobe
  deriving DecidableEq

def OperatingMode.modeBits : OperatingMode → Byte
  | interruptOnTerminalCount => 0
  | hardwareRetriggerableOneShot => 1
  | rateGenerator => 2
  | squareWaveGenerator => 3
  | softwareTriggeredStrobe => 4
  | hardwareTriggeredStrobe => 5

/-- The byte of a two-byte access that comes next. -/
inductive BytePhase
  | low
  | high
  deriving DecidableEq

structure PitChannel where
  reloadValue : BitVec 16 := 11932
  count : BitVec 16 := 11932
  accessMode : AccessMode := .lowHighByte
  operatingMode : OperatingMode := .rateGenerator
  bcd : Bool := false
  /-- A latched value. Bit 16 marks one of which the high byte is left. -/
  readLatch : Option (BitVec 32) := none
  writeLatch : Option Byte := none
  readPhase : BytePhase := .low
  gate : Bool := true
  output : Bool := false
  nullCount : Bool := false
  loadedAtNanos : Word := 0

/-- Oscillator ticks in a number of nanoseconds. The product is taken in 128 bits. -/
def nanosToPitTicks (nanos : Nat) : Nat := nanos * 1193182 / 1000000000 % 2 ^ 64

/-- No number of nanoseconds has more ticks than fit. -/
theorem nanosToPitTicks_eq {nanos : Nat} (h : nanos < 2 ^ 64) :
    nanosToPitTicks nanos = nanos * 1193182 / 1000000000 := by
  rw [nanosToPitTicks]
  refine Nat.mod_eq_of_lt ?_
  omega

/-- Ticks between two times, none if they are in the wrong order. -/
def ticksBetween (start now : Word) : Nat := nanosToPitTicks (now.toNat - start.toNat)

theorem ticksBetween_mono {start a b : Word} (h : a.toNat ≤ b.toNat) :
    ticksBetween start a ≤ ticksBetween start b := by
  have ha := a.isLt
  have hb := b.isLt
  rw [ticksBetween, ticksBetween, nanosToPitTicks_eq (by omega), nanosToPitTicks_eq (by omega)]
  exact Nat.div_le_div_right (Nat.mul_le_mul_right _ (by omega))

theorem ticksBetween_self (start : Word) : ticksBetween start start = 0 := by
  simp [ticksBetween, nanosToPitTicks]

/-- Packed decimal of a number below 10000. -/
def binToBcd (v : Nat) : BitVec 16 :=
  let v := v % 10000
  BitVec.ofNat 16 (v / 1000 * 4096 + v / 100 % 10 * 256 + v / 10 % 10 * 16 + v % 10)

def bcdToBin (v : BitVec 16) : BitVec 16 :=
  let n := v.toNat
  BitVec.ofNat 16 (n / 4096 * 1000 + n / 256 % 16 * 100 + n / 16 % 16 * 10 + n % 16)

/-- A count in the form in which it is read. -/
def toCount (value period : Nat) (bcd : Bool) : BitVec 16 :=
  let v := max (min value period) (if value = 0 then 0 else 1)
  if bcd then binToBcd (v % 65536 % 10000) else BitVec.ofNat 16 v

namespace PitChannel

/-- A reload value of zero stands for the longest period. -/
def period (ch : PitChannel) : Nat :=
  if ch.reloadValue = 0 then 0x10000 else ch.reloadValue.toNat

theorem period_pos (ch : PitChannel) : 0 < ch.period := by
  unfold period
  split
  · decide
  · next h =>
    refine Nat.pos_of_ne_zero fun hzero => h ?_
    exact BitVec.eq_of_toNat_eq hzero

/-- Count and output a number of ticks after the counter was loaded. -/
def computeFromTicks (ch : PitChannel) (ticks : Nat) : BitVec 16 × Bool :=
  let period := ch.period
  if !ch.gate then
    match ch.operatingMode with
    | .rateGenerator | .squareWaveGenerator => (ch.count, true)
    | _ => (ch.count, ch.output)
  else
    match ch.operatingMode with
    | .interruptOnTerminalCount | .hardwareRetriggerableOneShot =>
      if period ≤ ticks then (0, true) else (toCount (period - ticks) period ch.bcd, false)
    | .rateGenerator =>
      let remaining := period - ticks % period
      (toCount remaining period ch.bcd, remaining != 1)
    | .squareWaveGenerator =>
      let half := period / 2
      let inPeriod := ticks % period
      let out := decide (inPeriod < max half 1)
      let posInHalf := if out then inPeriod else inPeriod - half
      let span := if out then max half 1 else period - half
      let remaining := max (span - posInHalf) 1
      (toCount (remaining * 2) period ch.bcd, out)
    | .softwareTriggeredStrobe | .hardwareTriggeredStrobe =>
      if period ≤ ticks then
        let pos := ticks % period
        (toCount (if pos = 0 then period else period - pos) period ch.bcd, pos != 0)
      else (toCount (period - ticks) period ch.bcd, true)

def compute (ch : PitChannel) (now : Word) : BitVec 16 × Bool :=
  ch.computeFromTicks (ticksBetween ch.loadedAtNanos now)

/-- The status byte of the read-back command. -/
def statusByte (ch : PitChannel) (now : Word) : Byte :=
  (if (ch.compute now).2 then 0x80 else 0) ||| (if ch.nullCount then 0x40 else 0) |||
    (ch.accessMode.rwBits <<< 4) ||| (ch.operatingMode.modeBits <<< 1) |||
    (if ch.bcd then 1 else 0)

/-- Latch a value unless one is latched already. -/
def latch (ch : PitChannel) (value : BitVec 32) : PitChannel :=
  if ch.readLatch.isNone then { ch with readLatch := some value, readPhase := .low } else ch

def latchCount (ch : PitChannel) (now : Word) : PitChannel :=
  ch.latch ((ch.compute now).1.setWidth 32)

def latchStatus (ch : PitChannel) (now : Word) : PitChannel :=
  ch.latch ((ch.statusByte now).setWidth 32)

/-- `read_channel`. -/
def read (ch : PitChannel) (now : Word) : Byte × PitChannel :=
  match ch.readLatch with
  | some value =>
    match ch.accessMode with
    | .lowByteOnly => (value.setWidth 8, { ch with readLatch := none })
    | .lowHighByte =>
      if value.getLsbD 16 then
        (value.setWidth 8, { ch with readLatch := none, readPhase := .low })
      else
        (value.setWidth 8,
          { ch with readLatch := some (0x10000#32 ||| (value >>> 8)), readPhase := .high })
    | .highByteOnly => ((value >>> 8).setWidth 8, { ch with readLatch := none })
  | none =>
    let count := (ch.compute now).1
    match ch.accessMode with
    | .lowByteOnly => (count.setWidth 8, ch)
    | .highByteOnly => ((count >>> 8).setWidth 8, ch)
    | .lowHighByte =>
      match ch.readPhase with
      | .low => (count.setWidth 8, { ch with readPhase := .high })
      | .high => ((count >>> 8).setWidth 8, { ch with readPhase := .low })

/-- Start counting from a reload value. -/
def load (ch : PitChannel) (now : Word) (value : BitVec 16) : PitChannel :=
  let reload := if ch.bcd then bcdToBin value else value
  { ch with
    reloadValue := reload
    count := reload
    loadedAtNanos := now
    nullCount := false
    output :=
      match ch.operatingMode with
      | .rateGenerator | .squareWaveGenerator | .softwareTriggeredStrobe
      | .hardwareTriggeredStrobe => true
      | _ => false }

/-- `write_channel`. -/
def write (ch : PitChannel) (now : Word) (value : Byte) : PitChannel :=
  match ch.accessMode with
  | .lowByteOnly => ch.load now (value.setWidth 16)
  | .highByteOnly => ch.load now (value.setWidth 16 <<< 8)
  | .lowHighByte =>
    match ch.writeLatch with
    | some low =>
      { ch with writeLatch := none }.load now (low.setWidth 16 ||| (value.setWidth 16 <<< 8))
    | none => { ch with writeLatch := some value, nullCount := true }

/-- A control word other than the latch commands. -/
def program (ch : PitChannel) (access : AccessMode) (mode : OperatingMode) (bcd : Bool) :
    PitChannel :=
  { ch with
    accessMode := access
    operatingMode := mode
    bcd
    writeLatch := none
    readPhase := .low
    nullCount := true
    output := decide (mode ≠ .interruptOnTerminalCount) }

end PitChannel

def AccessMode.ofBits (bits : BitVec 2) : AccessMode :=
  if bits = 1 then lowByteOnly else if bits = 2 then highByteOnly else lowHighByte

def OperatingMode.ofBits (bits : BitVec 3) : OperatingMode :=
  if bits = 0 then interruptOnTerminalCount
  else if bits = 1 then hardwareRetriggerableOneShot
  else if bits = 2 ∨ bits = 6 then rateGenerator
  else if bits = 3 ∨ bits = 7 then squareWaveGenerator
  else if bits = 4 then softwareTriggeredStrobe
  else hardwareTriggeredStrobe

/-- The three counters. -/
inductive PitIndex
  | zero
  | one
  | two
  deriving DecidableEq

namespace PitIndex

/-- The counter that the top bits of a control word select. -/
def ofBits (bits : BitVec 2) : PitIndex :=
  if bits = 0 then zero else if bits = 1 then one else two

/-- The bit of a read-back command that selects the counter. -/
def readBackBit : PitIndex → Nat
  | zero => 1
  | one => 2
  | two => 3

end PitIndex

structure Pit where
  channels : PitIndex → PitChannel
  lastTickNanos : Word
  irqPending : Bool := false
  tickCount : Word := 0

/-- The time at which an operation consults each channel. -/
abbrev ChannelClock := PitIndex → Word

namespace Pit

/-- The gate of channel 2 is driven from outside and starts low. -/
def new (now : Word) : Pit where
  channels c := { loadedAtNanos := now, gate := decide (c ≠ .two) }
  lastTickNanos := now

def setChannel (p : Pit) (c : PitIndex) (ch : PitChannel) : Pit :=
  { p with channels := Function.update p.channels c ch }

def setChannel2Gate (p : Pit) (clock : ChannelClock) (level : Bool) : Pit :=
  let ch := p.channels .two
  if ch.gate = level then p
  else p.setChannel .two
    { ch with gate := level, loadedAtNanos := clock .two, count := ch.reloadValue }

/-- Whether channel 0 raises its interrupt. -/
def channel0Interrupt (p : Pit) (now : Word) : Bool :=
  let ch := p.channels .zero
  let start := ch.loadedAtNanos
  let prev := if p.lastTickNanos.toNat < start.toNat then start else p.lastTickNanos
  if now.toNat ≤ prev.toNat then false
  else
    let ticksPrev := ticksBetween start prev
    let ticksNow := ticksBetween start now
    match ch.operatingMode with
    | .interruptOnTerminalCount | .hardwareRetriggerableOneShot =>
      decide (ticksPrev < ch.period ∧ ch.period ≤ ticksNow)
    | .rateGenerator | .squareWaveGenerator | .softwareTriggeredStrobe
    | .hardwareTriggeredStrobe => decide (ticksPrev / ch.period < ticksNow / ch.period)

/-- `tick`: whether the interrupt of channel 0 is raised. -/
def tick (p : Pit) (now : Word) (clock : ChannelClock) : Bool × Pit :=
  let refresh (c : PitIndex) : PitChannel :=
    let ch := p.channels c
    { ch with
      count := (ch.compute (clock c)).1
      output := (ch.compute (clock c)).2
      nullCount := if ch.loadedAtNanos ≠ now then false else ch.nullCount }
  let p := { p with channels := refresh }
  let fired := (p.channels .zero).gate && p.channel0Interrupt now
  let p := { p with lastTickNanos := now }
  (fired, if fired then { p with irqPending := true, tickCount := p.tickCount + 1 } else p)

/-- The read-back command. With both count and status requested, the count is latched. -/
def readBack (p : Pit) (clock : ChannelClock) (value : Byte) : Pit :=
  let wantsCount := !value.getLsbD 5
  let wantsStatus := !value.getLsbD 4
  { p with
    channels := fun c =>
      let ch := p.channels c
      if !value.getLsbD c.readBackBit then ch
      else if wantsStatus && !wantsCount then ch.latchStatus (clock c)
      else if wantsCount then ch.latchCount (clock c)
      else ch }

/-- `write_command`. -/
def writeCommand (p : Pit) (clock : ChannelClock) (value : Byte) : Pit :=
  let select : BitVec 2 := (value >>> 6).setWidth 2
  if select = 3 then p.readBack clock value
  else
    let c := PitIndex.ofBits select
    let access : BitVec 2 := (value >>> 4).setWidth 2
    if access = 0 then p.setChannel c ((p.channels c).latchCount (clock c))
    else
      p.setChannel c ((p.channels c).program (.ofBits access)
        (.ofBits ((value >>> 1).setWidth 3)) (value.getLsbD 0))

/-- The channel of a data port. -/
def portChannel (port : BitVec 16) : Option PitIndex :=
  if port = 0x40 then some .zero else if port = 0x41 then some .one
  else if port = 0x42 then some .two else none

def readPort (p : Pit) (clock : ChannelClock) (port : BitVec 16) : Byte × Pit :=
  match portChannel port with
  | some c =>
    let r := (p.channels c).read (clock c)
    (r.1, p.setChannel c r.2)
  | none => (0xFF, p)

def writePort (p : Pit) (clock : ChannelClock) (port : BitVec 16) (value : Byte) : Pit :=
  match portChannel port with
  | some c => p.setChannel c ((p.channels c).write (clock c) value)
  | none => if port = 0x43 then p.writeCommand clock value else p

end Pit

/-- What can happen to the timer. -/
inductive PitEvent
  | read (clock : ChannelClock) (port : BitVec 16)
  | write (clock : ChannelClock) (port : BitVec 16) (value : Byte)
  | tick (now : Word) (clock : ChannelClock)
  | gate (clock : ChannelClock) (level : Bool)

namespace Pit

def step (p : Pit) : PitEvent → Pit
  | .read clock port => (p.readPort clock port).2
  | .write clock port value => p.writePort clock port value
  | .tick now clock => (p.tick now clock).2
  | .gate clock level => p.setChannel2Gate clock level

theorem setChannel_self (p : Pit) (c : PitIndex) (ch : PitChannel) :
    (p.setChannel c ch).channels c = ch := Function.update_self ..

theorem setChannel_of_ne (p : Pit) {c c' : PitIndex} (h : c' ≠ c) (ch : PitChannel) :
    (p.setChannel c ch).channels c' = p.channels c' := Function.update_of_ne h ..

end Pit

end Rax.Devices

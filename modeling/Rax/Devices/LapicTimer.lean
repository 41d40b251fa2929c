import Rax.Devices.Lapic

/-!
# The current count of the APIC timer

The count is computed from the time since the timer was started, in `tick` and again whenever
the register is read. Both multiply the elapsed nanoseconds by the tick rate before they divide
by a second, in 64 bits. The rate times the divisor is a second, so the quotient is exact as
long as the product fits; afterwards the count starts again from the top every eighteen seconds
or so, times the divisor.
-/

namespace Rax.Devices.LocalApic

def isEnabled (s : LocalApic) : Bool := s.svr.getLsbD 8

def timerMasked (s : LocalApic) : Bool := s.lvtTimer.getLsbD 16

def timerVector (s : LocalApic) : Byte := s.lvtTimer.setWidth 8

/-- `tick`: the vector to raise, if any. -/
def tick (s : LocalApic) (now : Nat) : Option Byte × LocalApic :=
  if !s.isEnabled || s.timerInitialCount = 0 || s.timerMasked then (none, s)
  else
    match s.timerStart with
    | none => (none, s)
    | some start =>
      let ticks := s.elapsedTicks start now
      let initial := s.timerInitialCount.toNat
      if s.timerMode = 0 then
        if initial ≤ ticks then
          let s := { s with timerCurrentCount := 0, timerStart := none }
          if s.timerPending then (none, s) else (some s.timerVector, { s with timerPending := true })
        else (none, { s with timerCurrentCount := BitVec.ofNat 32 (initial - ticks) })
      else if s.timerMode = 1 then
        let s := { s with timerCurrentCount := BitVec.ofNat 32 (initial - ticks % initial) }
        if 0 < ticks / initial ∧ s.timerPending = false then
          (some s.timerVector, { s with timerPending := true, timerStart := some now })
        else (none, s)
      -- TSC-deadline mode is not implemented.
      else (none, s)

/-- Nanoseconds in a second, and the base frequency of the timer. -/
def second : Nat := 1000000000

end Rax.Devices.LocalApic

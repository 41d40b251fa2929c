import Rax.Devices.Pit

/-!
# When the interval timer fires

A tick is due in the one-shot modes if it is the first to find the period over, and in the
periodic modes if a multiple of the period lies between the previous tick and it. The device
counts modes 4 and 5, which strobe once, among the periodic ones: it fires again at every
further multiple of the period, and the output of mode 4 goes low there again.
-/

namespace Rax.Devices

/-- Modes that end with their first terminal count. -/
def OperatingMode.oneShot : OperatingMode → Bool
  | interruptOnTerminalCount | hardwareRetriggerableOneShot | softwareTriggeredStrobe
  | hardwareTriggeredStrobe => true
  | rateGenerator | squareWaveGenerator => false

/-- The strobes, which the device treats as periodic. -/
def OperatingMode.strobe : OperatingMode → Bool
  | softwareTriggeredStrobe | hardwareTriggeredStrobe => true
  | _ => false

/-- A call of `tick`: its time, and the times at which it refreshes the channels. -/
structure TickCall where
  now : Word
  clock : ChannelClock

namespace Pit

def tickStep (p : Pit) (call : TickCall) : Pit := (p.tick call.now call.clock).2

def fires (p : Pit) (call : TickCall) : Bool := (p.tick call.now call.clock).1

/-- The period of channel 0. -/
def period (p : Pit) : Nat := (p.channels .zero).period

def mode (p : Pit) : OperatingMode := (p.channels .zero).operatingMode

/-- Ticks from the load of channel 0 to a time. -/
def ticksAt (p : Pit) (now : Word) : Nat := ticksBetween (p.channels .zero).loadedAtNanos now

/-- Ticks from the load of channel 0 to the previous tick, none if the load came later. -/
def ticksSeen (p : Pit) : Nat := p.ticksAt p.lastTickNanos

/-- Whether the interrupt of channel 0 is to be raised. -/
def Due (p : Pit) (now : Word) : Prop :=
  if p.mode.oneShot then p.ticksSeen < p.period ∧ p.period ≤ p.ticksAt now
  else ∃ k, p.ticksSeen < k * p.period ∧ k * p.period ≤ p.ticksAt now

/-- A tick that sees another multiple of the period after the strobe is over. -/
def StrobesAgain (p : Pit) (now : Word) : Prop :=
  p.mode.strobe = true ∧ p.period ≤ p.ticksSeen ∧
    p.ticksSeen / p.period < p.ticksAt now / p.period

theorem period_pos (p : Pit) : 0 < p.period := PitChannel.period_pos _

section Tick

variable (p : Pit) (call : TickCall)

/-- A tick changes count, output and null count of a channel, and nothing that it depends on. -/
theorem tickStep_zero :
    ((p.tickStep call).channels .zero).gate = (p.channels .zero).gate ∧
      (p.tickStep call).period = p.period ∧ (p.tickStep call).mode = p.mode ∧
      ((p.tickStep call).channels .zero).loadedAtNanos = (p.channels .zero).loadedAtNanos ∧
      (p.tickStep call).lastTickNanos = call.now := by
  unfold tickStep tick
  dsimp only
  split <;> exact ⟨rfl, rfl, rfl, rfl, rfl⟩

theorem ticksSeen_tickStep : (p.tickStep call).ticksSeen = p.ticksAt call.now := by
  obtain ⟨-, -, -, hstart, hlast⟩ := tickStep_zero p call
  rw [ticksSeen, ticksAt, ticksAt, hstart, hlast]

theorem fires_eq_interrupt (hgate : (p.channels .zero).gate = true) :
    p.fires call = p.channel0Interrupt call.now := by
  have hfires : p.fires call = ((p.channels .zero).gate && p.channel0Interrupt call.now) := rfl
  rw [hfires, hgate, Bool.true_and]

/-- Ticks up to the later one of the previous tick and the load. -/
theorem ticksSeen_eq :
    ticksBetween (p.channels .zero).loadedAtNanos
        (if p.lastTickNanos.toNat < (p.channels .zero).loadedAtNanos.toNat then
          (p.channels .zero).loadedAtNanos else p.lastTickNanos) = p.ticksSeen := by
  split
  · next hlt =>
    have hzero : p.lastTickNanos.toNat - (p.channels .zero).loadedAtNanos.toNat = 0 := by omega
    rw [ticksBetween_self, ticksSeen, ticksAt, ticksBetween, hzero]
    rfl
  · rfl

/-- What the device compares: the ticks seen before and now. -/
theorem fires_iff (hgate : (p.channels .zero).gate = true)
    (hlater : p.lastTickNanos.toNat < call.now.toNat) :
    p.fires call = true ↔
      if p.mode.oneShot && !p.mode.strobe then
        p.ticksSeen < p.period ∧ p.period ≤ p.ticksAt call.now
      else p.ticksSeen / p.period < p.ticksAt call.now / p.period := by
  have hpos := p.period_pos
  rw [fires_eq_interrupt p call hgate, channel0Interrupt]
  simp only [ticksSeen_eq]
  by_cases hload : call.now.toNat ≤ (p.channels .zero).loadedAtNanos.toNat
  · -- A tick that is not after the load sees no ticks at all.
    have hnow : p.ticksAt call.now = 0 := by
      have hzero : call.now.toNat - (p.channels .zero).loadedAtNanos.toNat = 0 := by omega
      rw [ticksAt, ticksBetween, hzero]
      rfl
    rw [if_pos (by split <;> omega), hnow, Nat.zero_div]
    refine iff_of_false Bool.false_ne_true ?_
    split
    · omega
    · exact Nat.not_lt_zero _
  · rw [if_neg (by split <;> omega)]
    cases hmode : (p.channels .zero).operatingMode <;>
      simp only [mode, hmode, OperatingMode.oneShot, OperatingMode.strobe, Bool.not_false,
        Bool.not_true, Bool.and_true, Bool.and_false, Bool.false_eq_true, if_true, if_false,
        decide_eq_true_eq, period, ticksAt]

end Tick

/-- The calls are made at times that increase. -/
def Increasing (p : Pit) (calls : List TickCall) : Prop :=
  AtEach tickStep (fun p call => p.lastTickNanos.toNat < call.now.toNat) p calls

/-- The interrupts that a sequence of ticks raises. -/
def fireCount (p : Pit) (calls : List TickCall) : Nat :=
  tally tickStep (fun p call => (p.fires call).toNat) p calls

/-- From a load of channel 0 on, every tick raises the interrupt exactly when it is due, a
one-shot mode raises it once at most, and over a span of oscillator ticks the output of mode 4
is low for the tick of the terminal count only. -/
structure OnSchedule (p : Pit) (calls : List TickCall) (span : Nat) : Prop where
  due : AtEach tickStep (fun p call => p.fires call = true ↔ p.Due call.now) p calls
  once : p.mode.oneShot = true → p.fireCount calls ≤ 1
  strobe : p.mode = .softwareTriggeredStrobe → ∀ t ≤ span,
    ((p.channels .zero).computeFromTicks t).2 = false ↔ t = p.period

section Runs

variable {p : Pit} {call : TickCall}

/-- A multiple lies in an interval exactly if the quotients of its ends differ. -/
theorem exists_multiple_iff {a b n : Nat} (hn : 0 < n) :
    (∃ k, a < k * n ∧ k * n ≤ b) ↔ a / n < b / n := by
  constructor
  · rintro ⟨k, hlt, hle⟩
    exact Nat.lt_of_lt_of_le ((Nat.div_lt_iff_lt_mul hn).mpr hlt) ((Nat.le_div_iff_mul_le hn).mpr hle)
  · intro h
    exact ⟨b / n, (Nat.div_lt_iff_lt_mul hn).mp h, Nat.div_mul_le_self b n⟩

/-- A tick is raised when it is due, unless it strobes again. -/
theorem fires_iff_due (hgate : (p.channels .zero).gate = true)
    (hlater : p.lastTickNanos.toNat < call.now.toNat) :
    (p.fires call = true ↔ p.Due call.now) ↔ ¬ p.StrobesAgain call.now := by
  have hpos := p.period_pos
  have hseen : p.ticksSeen ≤ p.ticksAt call.now := ticksBetween_mono (le_of_lt hlater)
  rw [fires_iff p call hgate hlater, Due, StrobesAgain]
  cases hstrobe : p.mode.strobe with
  | false =>
    cases hshot : p.mode.oneShot with
    | false => simp [exists_multiple_iff hpos]
    | true => simp
  | true =>
    have hshot : p.mode.oneShot = true := by
      cases hmode : p.mode <;> rw [hmode] at hstrobe <;> first | rfl | cases hstrobe
    have hfirst : p.ticksSeen / p.period = 0 ↔ p.ticksSeen < p.period := Nat.div_eq_zero_iff_lt hpos
    have hreached : 0 < p.ticksAt call.now / p.period ↔ p.period ≤ p.ticksAt call.now :=
      Nat.div_pos_iff.trans (and_iff_right hpos)
    simp only [hshot, Bool.not_true, Bool.and_false, Bool.false_eq_true, if_false, if_true,
      true_and, not_and]
    omega

theorem due_iff {calls : List TickCall} (hgate : (p.channels .zero).gate = true)
    (hinc : p.Increasing calls) :
    AtEach tickStep (fun p call => p.fires call = true ↔ p.Due call.now) p calls ↔
      AtEach tickStep (fun p call => ¬ p.StrobesAgain call.now) p calls := by
  induction calls generalizing p with
  | nil => rfl
  | cons call calls ih =>
    have hgate' : ((p.tickStep call).channels .zero).gate = true :=
      (tickStep_zero p call).1.trans hgate
    exact and_congr (fires_iff_due hgate hinc.1) (ih hgate' hinc.2)

/-- Due ticks of a one-shot mode: one at most, and none once the period is over. -/
theorem fireCount_le {calls : List TickCall} (hshot : p.mode.oneShot = true)
    (hinc : p.Increasing calls)
    (hdue : AtEach tickStep (fun p call => p.fires call = true ↔ p.Due call.now) p calls) :
    p.fireCount calls ≤ if p.ticksSeen < p.period then 1 else 0 := by
  induction calls generalizing p with
  | nil => exact Nat.zero_le _
  | cons call calls ih =>
    obtain ⟨-, hperiod, hmode, -, -⟩ := tickStep_zero p call
    have hrest := ih (hmode ▸ hshot) hinc.2 hdue.2
    rw [ticksSeen_tickStep, hperiod] at hrest
    have hseen : p.ticksSeen ≤ p.ticksAt call.now := ticksBetween_mono (le_of_lt hinc.1)
    have hfirst : p.fires call = true ↔ p.ticksSeen < p.period ∧ p.period ≤ p.ticksAt call.now := by
      have hnow : p.fires call = true ↔ p.Due call.now := hdue.1
      rw [hnow, Due, if_pos hshot]
    have hcount : p.fireCount (call :: calls) =
        (p.fires call).toNat + (p.tickStep call).fireCount calls := rfl
    cases hfires : p.fires call with
    | false =>
      rw [hcount, hfires, Bool.toNat_false, Nat.zero_add]
      refine le_trans hrest ?_
      split_ifs <;> omega
    | true =>
      obtain ⟨hbefore, hnow⟩ := hfirst.mp hfires
      rw [if_neg (not_lt.mpr hnow)] at hrest
      rw [hcount, hfires, if_pos hbefore, Bool.toNat_true]
      omega

/-- The output of mode 4 is low at every multiple of the period. -/
theorem strobe_low_iff {ch : PitChannel} (hgate : ch.gate = true)
    (hmode : ch.operatingMode = .softwareTriggeredStrobe) (t : Nat) :
    (ch.computeFromTicks t).2 = false ↔ ch.period ≤ t ∧ t % ch.period = 0 := by
  simp only [PitChannel.computeFromTicks, hgate, hmode, Bool.not_true, Bool.false_eq_true, if_false]
  split <;> simp_all

theorem strobe_once_iff {ch : PitChannel} (hgate : ch.gate = true)
    (hmode : ch.operatingMode = .softwareTriggeredStrobe) (span : Nat) :
    (∀ t ≤ span, (ch.computeFromTicks t).2 = false ↔ t = ch.period) ↔ span < 2 * ch.period := by
  have hpos := ch.period_pos
  simp only [strobe_low_iff hgate hmode]
  constructor
  · intro h
    by_contra hspan
    have htwice := (h (2 * ch.period) (by omega)).mp ⟨by omega, Nat.mul_mod_left 2 ch.period⟩
    omega
  · intro hspan t ht
    constructor
    · rintro ⟨hle, hmod⟩
      have hdiv := Nat.mod_add_div t ch.period
      have hone : t / ch.period = 1 := Nat.div_eq_of_lt_le (by omega) (by omega)
      rw [hmod, hone] at hdiv
      omega
    · rintro rfl
      exact ⟨le_rfl, Nat.mod_self _⟩

end Runs

/-- Channel 0 keeps its schedule exactly if no strobe is repeated: no tick sees another multiple
of the period after the terminal count of mode 4 or 5, and mode 4 is not watched for as long as
two periods. -/
theorem onSchedule_iff {p : Pit} {calls : List TickCall} (hgate : (p.channels .zero).gate = true)
    (hinc : p.Increasing calls) (span : Nat) :
    p.OnSchedule calls span ↔
      AtEach tickStep (fun p call => ¬ p.StrobesAgain call.now) p calls ∧
        (p.mode = .softwareTriggeredStrobe → span < 2 * p.period) := by
  constructor
  · intro h
    refine ⟨(due_iff hgate hinc).mp h.due, fun hmode => ?_⟩
    exact (strobe_once_iff hgate hmode span).mp (h.strobe hmode)
  · rintro ⟨hagain, hspan⟩
    have hdue := (due_iff hgate hinc).mpr hagain
    refine ⟨hdue, fun hshot => ?_, fun hmode => ?_⟩
    · refine le_trans (fireCount_le hshot hinc hdue) ?_
      split <;> omega
    · exact (strobe_once_iff hgate hmode span).mpr (hspan hmode)

/-- Channel 0 in mode 4 with a period of ten ticks, loaded at time zero. -/
def strobing : Pit :=
  (new 0).setChannel .zero
    (((new 0).channels .zero).program .lowByteOnly .softwareTriggeredStrobe false |>.write 0 10)

/-- Calls at the given times. -/
def callsAt (times : List Word) : List TickCall := times.map fun t => ⟨t, fun _ => t⟩

/-- Ticks after 5, 10 and 14 oscillator ticks: the second raises the interrupt. -/
theorem onSchedule_strobing :
    strobing.OnSchedule (callsAt [5000, 9000, 12000]) 19 := by
  have hinc : strobing.Increasing (callsAt [5000, 9000, 12000]) :=
    ⟨by decide, by decide, by decide, trivial⟩
  have hagain : AtEach tickStep (fun p call => ¬ p.StrobesAgain call.now) strobing
      (callsAt [5000, 9000, 12000]) := by
    refine ⟨?_, ?_, ?_, trivial⟩ <;>
      · unfold StrobesAgain
        decide
  exact (onSchedule_iff rfl hinc 19).mpr ⟨hagain, fun _ => by decide⟩

/-- A tick after 21 oscillator ticks raises it again. -/
theorem strobing_fires_twice : ¬ strobing.OnSchedule (callsAt [9000, 18000]) 0 := by
  intro h
  have honce := h.once rfl
  revert honce
  decide

end Pit

end Rax.Devices

import Rax.Lib.Word
import Mathlib.Logic.Function.Basic

/-!
# The real-time clock

An MC146818: an index port and a data port to 128 bytes of CMOS memory, of which the first ones are
clock and control registers. Time registers are computed from the host's wall clock when they are
read. Interrupt flags are kept in register C, which a tick sets and a read clears.
-/

namespace Rax.Devices

/-- A register index, seven bits of the index port. -/
abbrev CmosIndex := BitVec 7

structure DateTime where
  second : Byte
  minute : Byte
  hour : Byte
  dayOfWeek : Byte
  dayOfMonth : Byte
  month : Byte
  year : BitVec 16
  deriving DecidableEq, Repr

structure Rtc where
  cmos : CmosIndex → Byte
  index : CmosIndex
  nmiDisabled : Bool

namespace Rtc

def regSeconds : CmosIndex := 0x00
def regSecondsAlarm : CmosIndex := 0x01
def regMinutes : CmosIndex := 0x02
def regMinutesAlarm : CmosIndex := 0x03
def regHours : CmosIndex := 0x04
def regHoursAlarm : CmosIndex := 0x05
def regDayOfWeek : CmosIndex := 0x06
def regDayOfMonth : CmosIndex := 0x07
def regMonth : CmosIndex := 0x08
def regYear : CmosIndex := 0x09
def regA : CmosIndex := 0x0A
def regB : CmosIndex := 0x0B
def regC : CmosIndex := 0x0C
def regD : CmosIndex := 0x0D
def regCentury : CmosIndex := 0x32

def regCUf : Byte := 0x10
def regCAf : Byte := 0x20
def regCPf : Byte := 0x40
def regCIrqf : Byte := 0x80

def set (s : Rtc) (index : CmosIndex) (value : Byte) : Rtc :=
  { s with cmos := Function.update s.cmos index value }

/-- Power-on defaults: rate 6, 24-hour mode, valid time, and the memory sizes. -/
def new : Rtc where
  cmos index :=
    match index.toNat with
    | 0x0A => 0x26
    | 0x0B => 0x02
    | 0x0D => 0x80
    | 0x15 => 0x80
    | 0x16 => 0x02
    | 0x18 | 0x31 => 0x3C
    | _ => 0
  index := 0
  nmiDisabled := false

def hasPendingInterrupt (s : Rtc) : Bool := s.cmos regC &&& regCIrqf != 0

def clearInterrupt (s : Rtc) : Rtc := s.set regC 0

/-! ## The wall clock -/

def toBcd (value : Byte) : Byte := ((value / 10) <<< 4) ||| (value % 10)

/-- Binary mode is bit 2 of register B. -/
def binaryMode (s : Rtc) : Bool := (s.cmos regB).getLsbD 2

def formatValue (s : Rtc) (value : Byte) : Byte := if s.binaryMode then value else toBcd value

/-- In 12-hour mode the top bit means the afternoon. -/
def formatHours (s : Rtc) (hour24 : Byte) : Byte :=
  if (s.cmos regB).getLsbD 1 then s.formatValue hour24
  else
    let hour12 := if hour24 % 12 = 0 then 12 else hour24 % 12
    let formatted := s.formatValue hour12
    if 12 ≤ hour24 then formatted ||| 0x80 else formatted

/-- Days since the epoch to a date, by eras of 400 years that start in March. -/
def fromUnixSeconds (secs : Nat) : DateTime :=
  let days := secs / 86400
  let secsOfDay := secs % 86400
  let dow := ((days % 7 + 4) % 7 + 7) % 7
  let z := days + 719468
  let era := z / 146097
  let doe := z - era * 146097
  let yoe := (doe - doe / 1460 + doe / 36524 - doe / 146096) / 365
  let y := yoe + era * 400
  let doy := doe - (365 * yoe + yoe / 4 - yoe / 100)
  let mp := (5 * doy + 2) / 153
  let d := doy - (153 * mp + 2) / 5 + 1
  let m := if mp < 10 then mp + 3 else mp - 9
  { second := BitVec.ofNat 8 (secsOfDay % 60)
    minute := BitVec.ofNat 8 (secsOfDay % 3600 / 60)
    hour := BitVec.ofNat 8 (secsOfDay / 3600)
    dayOfWeek := BitVec.ofNat 8 dow + 1
    dayOfMonth := BitVec.ofNat 8 d
    month := BitVec.ofNat 8 m
    year := BitVec.ofNat 16 (y + if m ≤ 2 then 1 else 0) }

/-- A host time: seconds since the epoch and nanoseconds in the second. -/
structure HostTime where
  secs : Nat
  subsecNanos : Nat
  deriving Repr

def isTimeRegister (index : CmosIndex) : Bool :=
  index ∈ [regSeconds, regMinutes, regHours, regDayOfWeek, regDayOfMonth, regMonth, regYear,
    regCentury]

def readTimeRegister (s : Rtc) (host : HostTime) (index : CmosIndex) : Byte :=
  let now := fromUnixSeconds host.secs
  if index = regSeconds then s.formatValue now.second
  else if index = regMinutes then s.formatValue now.minute
  else if index = regHours then s.formatHours now.hour
  else if index = regDayOfWeek then s.formatValue now.dayOfWeek
  else if index = regDayOfMonth then s.formatValue now.dayOfMonth
  else if index = regMonth then s.formatValue now.month
  else if index = regYear then s.formatValue ((now.year % 100).setWidth 8)
  else if index = regCentury then s.formatValue ((now.year / 100).setWidth 8)
  else 0

/-- An alarm byte with both top bits set matches anything. -/
def alarmByteMatches (alarm current : Byte) : Bool := alarm &&& 0xC0 == 0xC0 || alarm == current

def alarmMatches (s : Rtc) (now : DateTime) : Bool :=
  alarmByteMatches (s.cmos regSecondsAlarm) (s.formatValue now.second) &&
    alarmByteMatches (s.cmos regMinutesAlarm) (s.formatValue now.minute) &&
    alarmByteMatches (s.cmos regHoursAlarm) (s.formatValue now.hour)

/-! ## Interrupt flags -/

/-- Each flag of register C counts when its enable in register B is set, which is at the same
bit. -/
def irqEnabled (b c : Byte) : Bool :=
  (b.getLsbD 6 && c.getLsbD 6) || (b.getLsbD 5 && c.getLsbD 5) || (b.getLsbD 4 && c.getLsbD 4)

def updateIrqf (s : Rtc) : Rtc :=
  s.set regC (if irqEnabled (s.cmos regB) (s.cmos regC) then s.cmos regC ||| regCIrqf
    else s.cmos regC &&& ~~~regCIrqf)

/-- Or a flag into register C. -/
def flag (s : Rtc) (bit : Byte) : Rtc := s.set regC (s.cmos regC ||| bit)

/-- None for rate 0. -/
def periodicPeriodNanos (s : Rtc) : Option Nat :=
  let rate := (s.cmos regA &&& 0x0F).toNat
  if rate = 0 then none
  else
    let freq := 32768 >>> (rate - 1)
    if freq = 0 then none else some (1000000000 / freq)

/-- Update-ended and alarm, unless updates are inhibited by the top bit of register B. -/
def flagUpdate (s : Rtc) (host : HostTime) : Rtc :=
  if (s.cmos regB).getLsbD 7 then s
  else
    let s := s.flag regCUf
    if s.alarmMatches (fromUnixSeconds host.secs) then s.flag regCAf else s

def flagPeriodic (s : Rtc) (elapsedNanos : Word) : Rtc :=
  match s.periodicPeriodNanos with
  | none => s
  | some period => if period ≤ elapsedNanos.toNat then s.flag regCPf else s

def tick (s : Rtc) (host : HostTime) (elapsedNanos : Word) : Rtc :=
  ((s.flagUpdate host).flagPeriodic elapsedNanos).updateIrqf

/-! ## Ports -/

def readRegister (s : Rtc) (host : HostTime) : Byte × Rtc :=
  if isTimeRegister s.index then (s.readTimeRegister host s.index, s)
  else if s.index = regA then
    -- The update flag is shown for the last 244 microseconds of a second.
    let base := s.cmos regA &&& 0x7F
    if (s.cmos regB).getLsbD 7 then (base, s)
    else if 999756000 ≤ host.subsecNanos then (base ||| 0x80, s)
    else (base, s)
  else if s.index = regC then (s.cmos regC, s.set regC 0)
  else if s.index = regD then (s.cmos regD ||| 0x80, s)
  else (s.cmos s.index, s)

def writeRegister (s : Rtc) (value : Byte) : Rtc :=
  if s.index = regA then s.set regA (value &&& 0x7F)
  else if s.index = regB then (s.set regB value).updateIrqf
  else if s.index = regC ∨ s.index = regD then s
  else s.set s.index value

def read (s : Rtc) (host : HostTime) (port : BitVec 16) : Byte × Rtc :=
  if port = 0x70 then (s.index.setWidth 8 ||| (if s.nmiDisabled then (0x80 : Byte) else 0), s)
  else if port = 0x71 then s.readRegister host
  else (0xFF, s)

def write (s : Rtc) (port : BitVec 16) (value : Byte) : Rtc :=
  if port = 0x70 then { s with nmiDisabled := value.getLsbD 7, index := value.setWidth 7 }
  else if port = 0x71 then s.writeRegister value
  else s

/-! ## The periodic flag -/

/-- The periodic flag of register C. -/
def pf (s : Rtc) : Bool := (s.cmos regC).getLsbD 6

/-- A call of `tick`: the elapsed time it is given and the host time it sees. -/
structure TickCall where
  elapsedNanos : Word
  host : HostTime
  deriving Repr

def ticks (s : Rtc) (calls : List TickCall) : Rtc :=
  calls.foldl (fun s call => s.tick call.host call.elapsedNanos) s

def elapsed (calls : List TickCall) : Nat := (calls.map fun call => call.elapsedNanos.toNat).sum

/-- The periodic flag is set after some tick of a run. -/
def FlaggedDuring (s : Rtc) (calls : List TickCall) : Prop :=
  ∃ done call rest, calls = done ++ call :: rest ∧ (s.ticks (done ++ [call])).pf = true

@[simp] theorem set_cmos_self (s : Rtc) (index : CmosIndex) (value : Byte) :
    (s.set index value).cmos index = value := by
  simp [set]

theorem set_cmos_of_ne (s : Rtc) {index index' : CmosIndex} (value : Byte) (h : index' ≠ index) :
    (s.set index value).cmos index' = s.cmos index' := by
  simp [set, Function.update_of_ne h]

theorem pf_flag (s : Rtc) (bit : Byte) : (s.flag bit).pf = (s.pf || bit.getLsbD 6) := by
  simp only [pf, flag, set_cmos_self, BitVec.getLsbD_or]

theorem pf_updateIrqf (s : Rtc) : s.updateIrqf.pf = s.pf := by
  have hbit : regCIrqf.getLsbD 6 = false := by decide
  unfold pf updateIrqf
  rw [set_cmos_self]
  split
  · rw [BitVec.getLsbD_or, hbit, Bool.or_false]
  · rw [BitVec.getLsbD_and, BitVec.getLsbD_not, hbit]
    simp

theorem pf_flagUpdate (s : Rtc) (host : HostTime) : (s.flagUpdate host).pf = s.pf := by
  have huf : regCUf.getLsbD 6 = false := by decide
  have haf : regCAf.getLsbD 6 = false := by decide
  unfold flagUpdate
  split
  · rfl
  · dsimp only
    split
    · rw [pf_flag, pf_flag, huf, haf, Bool.or_false, Bool.or_false]
    · rw [pf_flag, huf, Bool.or_false]

theorem cmos_regA_flag (s : Rtc) (bit : Byte) : (s.flag bit).cmos regA = s.cmos regA :=
  set_cmos_of_ne s _ (by decide)

theorem cmos_regA_flagUpdate (s : Rtc) (host : HostTime) :
    (s.flagUpdate host).cmos regA = s.cmos regA := by
  unfold flagUpdate
  dsimp only
  split
  · rfl
  · split
    · rw [cmos_regA_flag, cmos_regA_flag]
    · rw [cmos_regA_flag]

theorem cmos_regA_flagPeriodic (s : Rtc) (e : Word) :
    (s.flagPeriodic e).cmos regA = s.cmos regA := by
  unfold flagPeriodic
  split
  · rfl
  · split
    · rw [cmos_regA_flag]
    · rfl

theorem cmos_regA_tick (s : Rtc) (host : HostTime) (e : Word) :
    (s.tick host e).cmos regA = s.cmos regA := by
  have hirqf : ∀ s : Rtc, s.updateIrqf.cmos regA = s.cmos regA := fun s =>
    set_cmos_of_ne s _ (by decide)
  rw [tick, hirqf, cmos_regA_flagPeriodic, cmos_regA_flagUpdate]

theorem periodicPeriodNanos_congr {s s' : Rtc} (h : s'.cmos regA = s.cmos regA) :
    s'.periodicPeriodNanos = s.periodicPeriodNanos := by
  unfold periodicPeriodNanos
  rw [h]

theorem period_pos {s : Rtc} {period : Nat} (hp : s.periodicPeriodNanos = some period) :
    0 < period := by
  unfold periodicPeriodNanos at hp
  dsimp only at hp
  split at hp
  · cases hp
  · split at hp
    · cases hp
    · rename_i hfreq
      have hle : 32768 >>> ((s.cmos regA &&& 0x0F).toNat - 1) ≤ 32768 := Nat.shiftRight_le _ _
      have hval := Option.some.inj hp
      subst hval
      exact Nat.div_pos (by omega) (Nat.pos_of_ne_zero hfreq)

/-- A tick sets the periodic flag when its own elapsed time is a period. -/
theorem pf_tick {s : Rtc} {period : Nat} (hp : s.periodicPeriodNanos = some period)
    (host : HostTime) (e : Word) :
    (s.tick host e).pf = (s.pf || decide (period ≤ e.toNat)) := by
  have hpf : regCPf.getLsbD 6 = true := by decide
  have hp' : (s.flagUpdate host).periodicPeriodNanos = some period :=
    (periodicPeriodNanos_congr (cmos_regA_flagUpdate s host)).trans hp
  rw [tick, pf_updateIrqf, flagPeriodic, hp']
  by_cases he : period ≤ e.toNat
  · simp [he, pf_flag, hpf]
  · simp [he, pf_flagUpdate]

/-- Over ticks the flag is set when one of them alone is a period long. -/
theorem pf_ticks {s : Rtc} {period : Nat} (hp : s.periodicPeriodNanos = some period)
    (calls : List TickCall) :
    (s.ticks calls).pf =
      (s.pf || calls.any fun call => decide (period ≤ call.elapsedNanos.toNat)) := by
  induction calls generalizing s with
  | nil => simp [ticks]
  | cons call calls ih =>
    have hp' := (periodicPeriodNanos_congr (cmos_regA_tick s call.host call.elapsedNanos)).trans hp
    have hstep : s.ticks (call :: calls) = (s.tick call.host call.elapsedNanos).ticks calls := rfl
    rw [hstep, ih hp', pf_tick hp, List.any_cons, Bool.or_assoc]

/-- During a run of ticks that lasts at least a period the flag is set exactly when it was set
before, or one of the calls alone is given at least a period. -/
theorem periodic_flag_during_iff (s : Rtc) (period : Nat)
    (hp : s.periodicPeriodNanos = some period) (calls : List TickCall)
    (hlong : period ≤ elapsed calls) :
    s.FlaggedDuring calls ↔
      s.pf = true ∨ ∃ call ∈ calls, period ≤ call.elapsedNanos.toNat := by
  have hafter : ∀ done, (s.ticks done).pf = true ↔
      s.pf = true ∨ ∃ call ∈ done, period ≤ call.elapsedNanos.toNat := by
    intro done
    rw [pf_ticks hp, Bool.or_eq_true, List.any_eq_true]
    simp only [decide_eq_true_eq]
  constructor
  · rintro ⟨done, call, rest, rfl, hset⟩
    refine (hafter _).mp hset |>.imp_right ?_
    rintro ⟨call', hmem, hle⟩
    refine ⟨call', ?_, hle⟩
    simp only [List.mem_append, List.mem_cons, List.not_mem_nil, or_false] at hmem ⊢
    tauto
  · rintro (hset | ⟨call, hmem, hle⟩)
    · cases calls with
      | nil =>
        have hpos := period_pos hp
        exact absurd hlong (Nat.not_le.mpr hpos)
      | cons call rest => exact ⟨[], call, rest, rfl, (hafter _).mpr (.inl hset)⟩
    · obtain ⟨done, rest, rfl⟩ := List.append_of_mem hmem
      exact ⟨done, call, rest, rfl, (hafter _).mpr (.inr ⟨call, by simp, hle⟩)⟩

/-- A period of 976562 ns: of three calls the second alone is as long. -/
theorem one_long_call_sets_flag :
    new.FlaggedDuring [⟨500000, ⟨0, 0⟩⟩, ⟨1000000, ⟨0, 0⟩⟩, ⟨300000, ⟨1, 0⟩⟩] :=
  (periodic_flag_during_iff new 976562 (by decide) _ (by decide)).mpr
    (.inr ⟨⟨1000000, ⟨0, 0⟩⟩, by simp, by decide⟩)

/-- Two calls of half a millisecond each make up more than a period, and set nothing. -/
theorem short_calls_set_nothing :
    new.periodicPeriodNanos = some 976562 ∧ elapsed [⟨500000, ⟨0, 0⟩⟩, ⟨500000, ⟨0, 0⟩⟩] = 1000000 ∧
      (new.ticks [⟨500000, ⟨0, 0⟩⟩]).pf = false ∧
      (new.ticks [⟨500000, ⟨0, 0⟩⟩, ⟨500000, ⟨0, 0⟩⟩]).pf = false := by
  decide +kernel

end Rtc

end Rax.Devices

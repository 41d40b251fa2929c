import Rax.Devices.Pit

/-!
# Latched reads of the interval timer

A latch command fixes bytes that the following reads of a channel return: one or two bytes of
the count, by the access mode in force at the command, or the status byte. The device keeps the
latched value alone and takes the access mode of each read to cut it into bytes. That gives the
right bytes as long as the mode does not change what is left to read, and as long as a status
byte is latched in the mode that reads low bytes.
-/

namespace Rax.Devices

namespace PitChannel

/-- The bytes of a count that an access mode reads. -/
def countBytes (mode : AccessMode) (count : BitVec 16) : List Byte :=
  match mode with
  | .lowByteOnly => [count.setWidth 8]
  | .highByteOnly => [(count >>> 8).setWidth 8]
  | .lowHighByte => [count.setWidth 8, (count >>> 8).setWidth 8]

/-- The byte of the live count that comes next. -/
def liveByte (ch : PitChannel) (now : Word) : Byte :=
  let count := (ch.compute now).1
  match ch.accessMode, ch.readPhase with
  | .lowByteOnly, _ | .lowHighByte, .low => count.setWidth 8
  | .highByteOnly, _ | .lowHighByte, .high => (count >>> 8).setWidth 8

/-- The bytes that the device will return from its latch. -/
def owed (ch : PitChannel) : List Byte :=
  match ch.readLatch with
  | none => []
  | some value =>
    match ch.accessMode with
    | .lowByteOnly => [value.setWidth 8]
    | .highByteOnly => [(value >>> 8).setWidth 8]
    | .lowHighByte =>
      if value.getLsbD 16 then [value.setWidth 8]
      else [value.setWidth 8, (value >>> 8).setWidth 8]

end PitChannel

/-- The timer, and the bytes that the commands so far have fixed for each channel. -/
structure LatchedPit where
  pit : Pit
  pending : PitIndex → List Byte

namespace LatchedPit

/-- Fix bytes for a channel, unless there are some left. -/
def fixBytes (pending : List Byte) (bytes : List Byte) : List Byte :=
  if pending = [] then bytes else pending

/-- The bytes that a control word fixes. -/
def commandBytes (w : LatchedPit) (clock : ChannelClock) (value : Byte) (c : PitIndex) :
    List Byte :=
  let ch := w.pit.channels c
  let count := fixBytes (w.pending c) (PitChannel.countBytes ch.accessMode (ch.compute (clock c)).1)
  let select : BitVec 2 := (value >>> 6).setWidth 2
  let access : BitVec 2 := (value >>> 4).setWidth 2
  if select = 3 then
    if !value.getLsbD c.readBackBit then w.pending c
    else if !value.getLsbD 5 then count
    else if !value.getLsbD 4 then fixBytes (w.pending c) [ch.statusByte (clock c)]
    else w.pending c
  else if PitIndex.ofBits select = c ∧ access = 0 then count
  else w.pending c

def step (w : LatchedPit) (e : PitEvent) : LatchedPit where
  pit := w.pit.step e
  pending :=
    match e with
    | .read _ port =>
      match Pit.portChannel port with
      | some c => Function.update w.pending c (w.pending c).tail
      | none => w.pending
    | .write clock port value => if port = 0x43 then w.commandBytes clock value else w.pending
    | .tick .. | .gate .. => w.pending

/-- A read returns the next byte that is fixed, if there is one, and a byte of the live count
otherwise. With the last fixed byte the live count starts over. -/
def ReadsLatched (w : LatchedPit) : PitEvent → Prop
  | .read clock port => ∀ c, Pit.portChannel port = some c →
      (w.pit.readPort clock port).1 =
          (w.pending c).headD ((w.pit.channels c).liveByte (clock c)) ∧
        ((w.pending c).length = 1 →
          ((w.pit.step (.read clock port)).channels c).readPhase = .low)
  | _ => True

/-- A control word latches a status byte only where low bytes are read, and a new access mode
leaves the bytes to be read from a latch as they are. -/
structure CommandKeeps (ch : PitChannel) (c : PitIndex) (select access : BitVec 2) (value : Byte) :
    Prop where
  status : select = 3 → value.getLsbD c.readBackBit = true → value.getLsbD 5 = true →
    value.getLsbD 4 = false → ch.readLatch = none → ch.accessMode = .lowByteOnly
  access : select ≠ 3 → PitIndex.ofBits select = c → access ≠ 0 →
    { ch with accessMode := .ofBits access }.owed = ch.owed

/-- What an event must satisfy for the device to keep its latches. -/
def KeepsLatch (w : LatchedPit) : PitEvent → Prop
  | .write _ port value => port = 0x43#16 → ∀ c,
      CommandKeeps (w.pit.channels c) c ((value >>> 6).setWidth 2) ((value >>> 4).setWidth 2) value
  | _ => True

end LatchedPit

variable {bytes : List Byte}

namespace PitChannel

variable {ch : PitChannel} {now : Word}

theorem owed_eq_nil_iff : ch.owed = [] ↔ ch.readLatch = none := by
  unfold owed
  cases ch.readLatch with
  | none => simp
  | some value =>
    cases ch.accessMode <;> simp
    split <;> simp

theorem owed_congr {ch' : PitChannel} (hlatch : ch'.readLatch = ch.readLatch)
    (hmode : ch'.accessMode = ch.accessMode) : ch'.owed = ch.owed := by
  simp only [owed, hlatch, hmode]

theorem owed_latch {value : BitVec 32}
    (h : ch.readLatch = none → { ch with readLatch := some value }.owed = bytes) :
    (ch.latch value).owed = LatchedPit.fixBytes ch.owed bytes := by
  cases hlatch : ch.readLatch with
  | none =>
    have hnil : ch.owed = [] := owed_eq_nil_iff.mpr hlatch
    have hlatched : ch.latch value = { ch with readLatch := some value, readPhase := .low } := by
      simp [latch, hlatch]
    rw [LatchedPit.fixBytes, if_pos hnil, ← h hlatch, hlatched]
    exact owed_congr rfl rfl
  | some old =>
    have hne : ch.owed ≠ [] := fun hnil => by simp [owed_eq_nil_iff.mp hnil] at hlatch
    have hlatched : ch.latch value = ch := by simp [latch, hlatch]
    rw [LatchedPit.fixBytes, if_neg hne, hlatched]

theorem owed_latchCount : (ch.latchCount now).owed =
    LatchedPit.fixBytes ch.owed (countBytes ch.accessMode (ch.compute now).1) := by
  refine owed_latch fun _ => ?_
  generalize (ch.compute now).1 = count
  have hlow : (count.setWidth 32).setWidth 8 = count.setWidth 8 :=
    BitVec.setWidth_setWidth_of_le count (by decide)
  have hhigh : (count.setWidth 32 >>> 8).setWidth 8 = (count >>> 8).setWidth 8 := by
    have hfits : (count.setWidth 32).toNat = count.toNat :=
      BitVec.toNat_setWidth_of_le (by decide)
    refine BitVec.eq_of_toNat_eq ?_
    rw [BitVec.toNat_setWidth, BitVec.toNat_setWidth, BitVec.toNat_ushiftRight, hfits,
      BitVec.toNat_ushiftRight]
  have hmark : (count.setWidth 32).getLsbD 16 = false := by
    rw [BitVec.getLsbD_setWidth, BitVec.getLsbD_of_ge count 16 le_rfl, Bool.and_false]
  simp only [owed, hlow, hhigh, hmark, countBytes]
  cases ch.accessMode <;> rfl

/-- Latching the status fixes it where low bytes are read. -/
theorem owed_latchStatus (h : ch.readLatch = none → ch.accessMode = .lowByteOnly) :
    (ch.latchStatus now).owed = LatchedPit.fixBytes ch.owed [ch.statusByte now] := by
  refine owed_latch fun hnone => ?_
  have hbyte : ((ch.statusByte now).setWidth 32).setWidth 8 = ch.statusByte now :=
    (BitVec.setWidth_setWidth_of_le _ (by decide)).trans (BitVec.setWidth_eq _)
  simp only [owed, h hnone, hbyte]

/-- A latched value is read from its first byte on, whatever the phase was. -/
def FromFirst (ch : PitChannel) : Prop :=
  ch.readLatch ≠ none → ch.accessMode ≠ .lowHighByte → ch.readPhase = .low

theorem fromFirst_latch (h : ch.FromFirst) (value : BitVec 32) : (ch.latch value).FromFirst := by
  unfold latch
  split
  · intro _ _
    rfl
  · exact h

/-- A read takes the first byte that is owed, and otherwise one of the live count. -/
theorem read_spec (h : ch.FromFirst) (now : Word) :
    (ch.read now).1 = ch.owed.headD (ch.liveByte now) ∧ (ch.read now).2.owed = ch.owed.tail ∧
      (ch.read now).2.FromFirst ∧ (ch.owed.length = 1 → (ch.read now).2.readPhase = .low) := by
  cases hlatch : ch.readLatch with
  | none =>
    have hnil : ch.owed = [] := owed_eq_nil_iff.mpr hlatch
    have hnone : (ch.read now).2.readLatch = none := by
      cases hmode : ch.accessMode <;> cases hphase : ch.readPhase <;>
        simp [read, hlatch, hmode, hphase]
    refine ⟨?_, ?_, fun hsome => absurd hnone hsome, fun hone => ?_⟩
    · rw [hnil]
      simp only [read, hlatch, liveByte, List.headD_nil]
      cases ch.accessMode <;> cases ch.readPhase <;> rfl
    · rw [hnil, owed_eq_nil_iff.mpr hnone]
      rfl
    · rw [hnil] at hone
      cases hone
  | some value =>
    have hsome : ch.readLatch ≠ none := by simp [hlatch]
    cases hmode : ch.accessMode with
    | lowByteOnly =>
      have hphase := h hsome (by simp [hmode])
      simp [read, owed, hlatch, hmode, FromFirst, hphase]
    | highByteOnly =>
      have hphase := h hsome (by simp [hmode])
      simp [read, owed, hlatch, hmode, FromFirst, hphase]
    | lowHighByte =>
      cases hmark : value.getLsbD 16 with
      | true => simp [read, owed, hlatch, hmode, hmark, FromFirst, -BitVec.getLsbD_eq_getElem]
      | false =>
        -- The high byte is kept under the marker.
        have hkept : (0x10000#32 ||| value >>> 8).getLsbD 16 = true := by
          rw [BitVec.getLsbD_or]
          rfl
        have hbyte : (0x10000#32 ||| value >>> 8).setWidth 8 = (value >>> 8).setWidth 8 := by
          rw [BitVec.setWidth_or]
          exact BitVec.zero_or
        simp [read, owed, hlatch, hmode, hmark, hkept, hbyte, FromFirst,
          -BitVec.getLsbD_eq_getElem, -BitVec.getLsbD_or, -BitVec.setWidth_or]

/-- What a channel will return from its latch, and that it starts with the first byte. -/
def Owes (ch : PitChannel) (bytes : List Byte) : Prop := ch.owed = bytes ∧ ch.FromFirst

theorem Owes.of_eq {ch' : PitChannel} (h : ch.Owes bytes) (hlatch : ch'.readLatch = ch.readLatch)
    (hmode : ch'.accessMode = ch.accessMode) (hphase : ch'.readPhase = ch.readPhase) :
    ch'.Owes bytes := by
  refine ⟨(owed_congr hlatch hmode).trans h.1, ?_⟩
  intro hsome hne
  rw [hlatch] at hsome
  rw [hmode] at hne
  exact hphase.trans (h.2 hsome hne)

theorem Owes.latchCount (h : ch.Owes bytes) :
    (ch.latchCount now).Owes
      (LatchedPit.fixBytes bytes (countBytes ch.accessMode (ch.compute now).1)) :=
  ⟨h.1 ▸ owed_latchCount, fromFirst_latch h.2 _⟩

theorem Owes.latchStatus (h : ch.Owes bytes)
    (hmode : ch.readLatch = none → ch.accessMode = .lowByteOnly) :
    (ch.latchStatus now).Owes (LatchedPit.fixBytes bytes [ch.statusByte now]) :=
  ⟨h.1 ▸ owed_latchStatus hmode, fromFirst_latch h.2 _⟩

theorem Owes.write (h : ch.Owes bytes) (now : Word) (value : Byte) :
    (ch.write now value).Owes bytes := by
  refine h.of_eq ?_ ?_ ?_ <;>
    · unfold PitChannel.write
      split <;> (try split) <;> rfl

theorem Owes.program (h : ch.Owes bytes) {access : AccessMode}
    (hsame : { ch with accessMode := access }.owed = ch.owed) (mode : OperatingMode) (bcd : Bool) :
    (ch.program access mode bcd).Owes bytes :=
  ⟨(owed_congr rfl rfl).trans (hsame.trans h.1), fun _ _ => rfl⟩

end PitChannel

namespace LatchedPit

variable {w : LatchedPit} {clock : ChannelClock} {port : BitVec 16} {value : Byte}

/-- Every channel will return the bytes that are fixed for it. -/
def InStep (w : LatchedPit) : Prop := ∀ c, (w.pit.channels c).Owes (w.pending c)

theorem InStep.setChannel (h : w.InStep) {c : PitIndex} {ch : PitChannel} (hch : ch.Owes bytes) :
    InStep ⟨w.pit.setChannel c ch, Function.update w.pending c bytes⟩ := by
  intro c'
  by_cases hc : c' = c
  · subst hc
    simpa [Pit.setChannel] using hch
  · simpa [Pit.setChannel, Function.update_of_ne hc] using h c'

theorem InStep.command (h : w.InStep) (hkeep : w.KeepsLatch (.write clock 0x43 value)) :
    InStep ⟨w.pit.writeCommand clock value, w.commandBytes clock value⟩ := by
  intro c
  obtain ⟨hstatus, haccess⟩ := hkeep rfl c
  simp only [Pit.writeCommand, commandBytes]
  by_cases hselect : (value >>> 6).setWidth 2 = (3 : BitVec 2)
  · rw [if_pos hselect, if_pos hselect]
    simp only [Pit.readBack]
    cases hbit : value.getLsbD c.readBackBit with
    | false => simpa using h c
    | true =>
      cases hcount : value.getLsbD 5 with
      | false => simpa using (h c).latchCount
      | true =>
        cases hlatch : value.getLsbD 4 with
        | false => simpa using (h c).latchStatus (hstatus hselect hbit hcount hlatch)
        | true => simpa using h c
  · rw [if_neg hselect, if_neg hselect]
    by_cases hc : PitIndex.ofBits ((value >>> 6).setWidth 2) = c
    · subst hc
      by_cases hzero : (value >>> 4).setWidth 2 = (0 : BitVec 2)
      · rw [if_pos hzero, if_pos ⟨rfl, hzero⟩, Pit.setChannel_self]
        exact (h _).latchCount
      · rw [if_neg hzero, if_neg fun hboth => hzero hboth.2, Pit.setChannel_self]
        exact (h _).program (haccess hselect rfl hzero) _ _
    · have hother : ¬ (PitIndex.ofBits ((value >>> 6).setWidth 2) = c ∧
          (value >>> 4).setWidth 2 = (0 : BitVec 2)) := fun hboth => hc hboth.1
      rw [if_neg hother]
      split <;>
        · rw [Pit.setChannel_of_ne _ (Ne.symm hc)]
          exact h c

/-- One event keeps the device in step. -/
theorem InStep.step (h : w.InStep) {e : PitEvent} (hkeep : w.KeepsLatch e) :
    (w.step e).InStep := by
  cases e with
  | read clock port =>
    simp only [LatchedPit.step, Pit.step, Pit.readPort]
    cases Pit.portChannel port with
    | none => exact h
    | some c =>
      obtain ⟨-, howed, hfirst, -⟩ := PitChannel.read_spec (h c).2 (clock c)
      exact h.setChannel ⟨(h c).1 ▸ howed, hfirst⟩
  | write clock port value =>
    by_cases hport : port = 0x43
    · subst hport
      exact h.command hkeep
    · simp only [LatchedPit.step, Pit.step, Pit.writePort, if_neg hport]
      cases Pit.portChannel port with
      | none => exact h
      | some c =>
        have hwrite := h.setChannel (c := c) ((h c).write (clock c) value)
        rwa [Function.update_eq_self] at hwrite
  | tick now clock =>
    intro c
    refine (h c).of_eq ?_ ?_ ?_ <;>
      · simp only [LatchedPit.step, Pit.step, Pit.tick]
        split <;> rfl
  | gate clock level =>
    simp only [LatchedPit.step, Pit.step, Pit.setChannel2Gate]
    split
    · exact h
    · have hgate : PitChannel.Owes { w.pit.channels .two with
          gate := level
          loadedAtNanos := clock .two
          count := (w.pit.channels .two).reloadValue } (w.pending .two) :=
        (h .two).of_eq rfl rfl rfl
      have hset := h.setChannel (c := .two) hgate
      rwa [Function.update_eq_self] at hset

/-- In a device that is in step, reads return what is fixed. -/
theorem InStep.readsLatched (h : w.InStep) (e : PitEvent) : w.ReadsLatched e := by
  cases e with
  | read clock port =>
    intro c hc
    obtain ⟨hbyte, -, -, hphase⟩ := PitChannel.read_spec (h c).2 (clock c)
    have hread : w.pit.readPort clock port =
        (((w.pit.channels c).read (clock c)).1,
          w.pit.setChannel c ((w.pit.channels c).read (clock c)).2) := by
      simp only [Pit.readPort, hc]
    rw [← (h c).1, hread, Pit.step, hread, Pit.setChannel_self]
    exact ⟨hbyte, hphase⟩
  | _ => trivial

theorem InStep.run {events : List PitEvent} (h : w.InStep)
    (hkeep : AtEach LatchedPit.step KeepsLatch w events) :
    AtEach LatchedPit.step ReadsLatched w events := by
  induction events generalizing w with
  | nil => trivial
  | cons e events ih => exact ⟨h.readsLatched e, ih (h.step hkeep.1) hkeep.2⟩

/-- From a fresh timer, in every sequence of accesses that keeps the latches, every read returns
the bytes that were fixed at the latch commands, and then the live count from its first byte. -/
theorem reads_latched (now : Word) (events : List PitEvent)
    (hkeep : AtEach step KeepsLatch ⟨Pit.new now, fun _ => []⟩ events) :
    AtEach step ReadsLatched ⟨Pit.new now, fun _ => []⟩ events := by
  have hnew : InStep ⟨Pit.new now, fun _ => []⟩ := by
    intro c
    refine ⟨rfl, fun hsome => ?_⟩
    exact absurd rfl hsome
  exact hnew.run hkeep

/-- The count of channel 0 is latched and read, and a byte of the live count after it. -/
def latchedReads : List PitEvent :=
  let clock : ChannelClock := fun _ => 1000
  [.write clock 0x43 0x00, .write clock 0x43 0xC2, .read clock 0x40, .read clock 0x40,
    .read clock 0x40]

theorem reads_latched_count :
    AtEach step KeepsLatch ⟨Pit.new 0, fun _ => []⟩ latchedReads ∧
      AtEach step ReadsLatched ⟨Pit.new 0, fun _ => []⟩ latchedReads := by
  have hkeep : AtEach step KeepsLatch ⟨Pit.new 0, fun _ => []⟩ latchedReads := by
    refine ⟨?_, ?_, trivial, trivial, trivial, trivial⟩ <;>
      · rintro - c
        constructor <;> cases c <;> decide
  exact ⟨hkeep, reads_latched 0 latchedReads hkeep⟩

/-- The status of channel 0, which reads two bytes, and a read after it. -/
def statusReads : List PitEvent :=
  let clock : ChannelClock := fun _ => 0
  [.write clock 0x43 0xE2, .read clock 0x40, .read clock 0x40]

/-- The second read returns the upper byte of the latch, not the low byte of the count. -/
theorem statusReads_not_latched :
    ¬ AtEach step ReadsLatched ⟨Pit.new 0, fun _ => []⟩ statusReads := by
  rintro ⟨-, -, hread, -⟩
  have hbyte := (hread .zero rfl).1
  revert hbyte
  decide

end LatchedPit

end Rax.Devices

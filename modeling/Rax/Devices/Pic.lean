import Mathlib.Data.List.MinMax
import Rax.Lib.Run

/-!
# The cascaded 8259A interrupt controllers

Two controllers, the slave wired to line 2 of the master. The master sees the slave only
through the request bit that `refreshCascade` latches, and that function runs after some of
the operations only. The invariant `CascadeLatched` says that a slave with a deliverable
request has its bit latched in the master; it is what makes a slave request reach the CPU.
`Keeps` names the steps that keep it, and `slave_request_delivered` is the result over
whole runs. The closed run after it shows two slave requests of which the second is lost.
-/

namespace Rax.Devices

/-- Position in the initialisation sequence. -/
inductive InitState
  | ready
  | waitingICW2
  | waitingICW3
  | waitingICW4
  deriving DecidableEq

/-- One controller. -/
structure Pic8259 where
  irqLines : BitVec 8
  irr : BitVec 8
  isr : BitVec 8
  imr : BitVec 8
  vectorOffset : BitVec 8
  initState : InitState
  icw1 : BitVec 8
  icw4Needed : Bool
  levelTriggered : Bool
  singleMode : Bool
  mode8086 : Bool
  autoEoi : Bool
  specialFullyNested : Bool
  icw3 : BitVec 8
  rotateInAutoEoi : Bool
  specialMaskMode : Bool
  pollMode : Bool
  readIrr : Bool
  lowestPriority : BitVec 8

/-- Line returned in a spurious acknowledge. -/
def spuriousIrq : BitVec 8 := 7#8

/-- Bit position of a line: a release build takes a shift count modulo eight. -/
def irqIndex (irq : BitVec 8) : Nat := irq.toNat % 8

/-- `1u8 << irq`. -/
def irqBit (irq : BitVec 8) : BitVec 8 := BitVec.twoPow 8 (irqIndex irq)

/-- `reg & (1u8 << irq) != 0`. -/
def hasIrq (reg irq : BitVec 8) : Bool := reg &&& irqBit irq != 0#8

/-- `reg |= 1u8 << irq`. -/
def raiseIrq (reg irq : BitVec 8) : BitVec 8 := reg ||| irqBit irq

/-- `reg &= !(1u8 << irq)`. -/
def dropIrq (reg irq : BitVec 8) : BitVec 8 := reg &&& ~~~irqBit irq

/-- The range `0u8..8`. -/
def irqRange : List (BitVec 8) := [0#8, 1#8, 2#8, 3#8, 4#8, 5#8, 6#8, 7#8]

theorem irqIndex_lt (irq : BitVec 8) : irqIndex irq < 8 := Nat.mod_lt _ (by omega)

theorem hasIrq_eq (reg irq : BitVec 8) : hasIrq reg irq = reg.getLsbD (irqIndex irq) := by
  have hlt := irqIndex_lt irq
  have hne : BitVec.twoPow 8 (irqIndex irq) ≠ 0#8 := by
    intro hz
    have hbit := congrArg (fun x => BitVec.getLsbD x (irqIndex irq)) hz
    simp [hlt] at hbit
  rw [hasIrq, irqBit, BitVec.and_twoPow]
  cases h : reg.getLsbD (irqIndex irq) with
  | true => simp [hne]
  | false => simp

@[simp] theorem hasIrq_raiseIrq (reg a b : BitVec 8) :
    hasIrq (raiseIrq reg a) b = (hasIrq reg b || decide (irqIndex b = irqIndex a)) := by
  have hlt := irqIndex_lt b
  simp [hasIrq_eq, raiseIrq, irqBit, hlt]

@[simp] theorem hasIrq_dropIrq (reg a b : BitVec 8) :
    hasIrq (dropIrq reg a) b = (hasIrq reg b && !decide (irqIndex b = irqIndex a)) := by
  have hlt := irqIndex_lt b
  simp [hasIrq_eq, dropIrq, irqBit, hlt]

theorem hasIrq_and_not (reg mask irq : BitVec 8) :
    hasIrq (reg &&& ~~~mask) irq = (hasIrq reg irq && !hasIrq mask irq) := by
  simp [hasIrq_eq, irqIndex_lt]

theorem eq_of_irqIndex_eq {a b : BitVec 8} (ha : a ∈ irqRange) (hb : b ∈ irqRange)
    (h : irqIndex a = irqIndex b) : a = b := by
  have hlt : ∀ c ∈ irqRange, c.toNat < 8 := by decide
  have ha' := hlt a ha
  have hb' := hlt b hb
  apply BitVec.eq_of_toNat_eq
  simpa [irqIndex, Nat.mod_eq_of_lt ha', Nat.mod_eq_of_lt hb'] using h

namespace Pic8259

/-- A controller after power-on: every line masked. -/
def new (vectorOffset : BitVec 8) : Pic8259 where
  irqLines := 0#8
  irr := 0#8
  isr := 0#8
  imr := 0xFF#8
  vectorOffset := vectorOffset
  initState := .ready
  icw1 := 0#8
  icw4Needed := false
  levelTriggered := false
  singleMode := false
  mode8086 := true
  autoEoi := false
  specialFullyNested := false
  icw3 := 0#8
  rotateInAutoEoi := false
  specialMaskMode := false
  pollMode := false
  readIrr := true
  lowestPriority := 7#8

/-- Drive an input line. Edge mode latches a request on the rising edge only; level mode
lets the request follow the line. -/
def setIrq (p : Pic8259) (irq : BitVec 8) (level : Bool) : Pic8259 :=
  if 7#8 < irq then p
  else
    let wasHigh := hasIrq p.irqLines irq
    let lines := if level then raiseIrq p.irqLines irq else dropIrq p.irqLines irq
    if p.levelTriggered then
      { p with
        irqLines := lines
        irr := if level then raiseIrq p.irr irq else dropIrq p.irr irq }
    else if level && !wasHigh then { p with irqLines := lines, irr := raiseIrq p.irr irq }
    else { p with irqLines := lines }

/-- Rank of a line under the present rotation; zero is the highest priority. -/
def priorityRank (p : Pic8259) (irq : BitVec 8) : Nat :=
  ((irq + 7#8 - p.lowestPriority) &&& 7#8).toNat

/-- In-service levels that hold back others: special mask mode leaves out masked ones. -/
def blockingIsr (p : Pic8259) : BitVec 8 :=
  if p.specialMaskMode then p.isr &&& ~~~p.imr else p.isr

/-- A line that the loop of `highest_pending` takes into account. -/
def deliverable (p : Pic8259) (irq : BitVec 8) : Bool :=
  hasIrq (p.irr &&& ~~~p.imr) irq && !hasIrq p.isr irq &&
    !irqRange.any fun other =>
      hasIrq p.blockingIsr other && p.priorityRank other ≤ p.priorityRank irq

/-- The deliverable line of lowest rank; the loop keeps the first of equal ones. -/
def highestPending (p : Pic8259) : Option (BitVec 8) :=
  if p.irr &&& ~~~p.imr = 0#8 then none
  else (irqRange.filter p.deliverable).argmin p.priorityRank

def hasPending (p : Pic8259) : Bool := p.highestPending.isSome

/-- Acknowledge a line and return its vector. Under automatic EOI it never shows as in
service. -/
def ackIrq (p : Pic8259) (irq : BitVec 8) : BitVec 8 × Pic8259 :=
  let p := { p with irr := dropIrq p.irr irq }
  let p :=
    if p.autoEoi then
      if p.rotateInAutoEoi then { p with lowestPriority := irq } else p
    else { p with isr := raiseIrq p.isr irq }
  (p.vectorOffset + irq, p)

/-- Clear the in-service level of lowest rank (`clear_highest_isr`, non-specific EOI). -/
def clearHighestIsr (p : Pic8259) : Option (BitVec 8) × Pic8259 :=
  match (irqRange.filter (hasIrq p.blockingIsr)).argmin p.priorityRank with
  | some irq => (some irq, { p with isr := dropIrq p.isr irq })
  | none => (none, p)

def specificEoi (p : Pic8259) (irq : BitVec 8) : Pic8259 :=
  { p with isr := dropIrq p.isr irq }

/-- ICW1 restarts the initialisation sequence and resets most of the state. -/
def writeIcw1 (p : Pic8259) (value : BitVec 8) : Pic8259 :=
  { p with
    icw1 := value
    icw4Needed := value.getLsbD 0
    singleMode := value.getLsbD 1
    levelTriggered := value.getLsbD 3
    initState := .waitingICW2
    imr := 0#8
    isr := 0#8
    irr := 0#8
    irqLines := 0#8
    autoEoi := false
    rotateInAutoEoi := false
    specialMaskMode := false
    specialFullyNested := false
    pollMode := false
    readIrr := true
    lowestPriority := 7#8 }

/-- OCW2: end-of-interrupt and rotation commands. -/
def writeOcw2 (p : Pic8259) (value : BitVec 8) : Pic8259 :=
  let irq := value &&& 7#8
  match ((value >>> 5) &&& 7#8).toNat with
  | 0b001 => p.clearHighestIsr.2
  | 0b011 => p.specificEoi irq
  | 0b101 =>
    match p.clearHighestIsr with
    | (some cleared, p) => { p with lowestPriority := cleared }
    | (none, p) => p
  | 0b111 => { p.specificEoi irq with lowestPriority := irq }
  | 0b110 => { p with lowestPriority := irq }
  | 0b100 => { p with rotateInAutoEoi := true }
  | 0b000 => { p with rotateInAutoEoi := false }
  | _ => p

/-- OCW3: poll command, register selection and special mask mode. -/
def writeOcw3 (p : Pic8259) (value : BitVec 8) : Pic8259 :=
  { p with
    pollMode := if value.getLsbD 2 then true else p.pollMode
    readIrr := if value.getLsbD 1 then !value.getLsbD 0 else p.readIrr
    specialMaskMode := if value.getLsbD 6 then value.getLsbD 5 else p.specialMaskMode }

/-- Write to the command port. -/
def writeCommand (p : Pic8259) (value : BitVec 8) : Pic8259 :=
  if value.getLsbD 4 then p.writeIcw1 value
  else if value.getLsbD 3 then p.writeOcw3 value
  else p.writeOcw2 value

/-- Write to the data port: the next initialisation word, or the mask when initialised. -/
def writeData (p : Pic8259) (value : BitVec 8) : Pic8259 :=
  match p.initState with
  | .waitingICW2 =>
    { p with
      vectorOffset := value &&& 0xF8#8
      initState :=
        if p.singleMode then (if p.icw4Needed then .waitingICW4 else .ready)
        else .waitingICW3 }
  | .waitingICW3 =>
    { p with
      icw3 := value
      initState := if p.icw4Needed then .waitingICW4 else .ready }
  | .waitingICW4 =>
    { p with
      mode8086 := value.getLsbD 0
      autoEoi := value.getLsbD 1
      specialFullyNested := value.getLsbD 4
      initState := .ready }
  | .ready => { p with imr := value }

/-- Read the command port. An armed poll acknowledges the line it reports. -/
def readCommand (p : Pic8259) : BitVec 8 × Pic8259 :=
  if p.pollMode then
    let p := { p with pollMode := false }
    match p.highestPending with
    | some irq => (0x80#8 ||| (irq &&& 7#8), (p.ackIrq irq).2)
    | none => (0#8, p)
  else if p.readIrr then (p.irr, p)
  else (p.isr, p)

/-- Read the data port. -/
def readData (p : Pic8259) : BitVec 8 := p.imr

end Pic8259

namespace Pic8259

variable {p : Pic8259} {irq : BitVec 8}

theorem argmin_pending (p : Pic8259) :
    p.highestPending = (irqRange.filter p.deliverable).argmin p.priorityRank := by
  rw [highestPending]
  split
  case isTrue h =>
    -- With no unmasked request the loop finds nothing either.
    have hnone : irqRange.filter p.deliverable = [] := by
      apply List.filter_eq_nil_iff.mpr
      intro irq _
      simp [deliverable, h, hasIrq]
    rw [hnone, List.argmin_nil]
  case isFalse h => rfl

theorem hasPending_iff : p.hasPending = true ↔ ∃ irq ∈ irqRange, p.deliverable irq = true := by
  rw [hasPending, Option.isSome_iff_ne_none, argmin_pending, ne_eq, List.argmin_eq_none,
    List.filter_eq_nil_iff]
  simp

/-- What the selected line is: deliverable, and of lowest rank among those. -/
theorem highestPending_spec (h : p.highestPending = some irq) :
    irq ∈ irqRange ∧ p.deliverable irq = true ∧
      ∀ other ∈ irqRange, p.deliverable other = true →
        p.priorityRank irq ≤ p.priorityRank other := by
  rw [argmin_pending] at h
  obtain ⟨hmem, hdeliverable⟩ := List.mem_filter.mp (List.argmin_mem h)
  refine ⟨hmem, hdeliverable, fun other hother hdel => ?_⟩
  exact List.le_of_mem_argmin (List.mem_filter.mpr ⟨hother, hdel⟩) h

theorem deliverable_iff : p.deliverable irq = true ↔
    hasIrq p.irr irq = true ∧ hasIrq p.imr irq = false ∧ hasIrq p.isr irq = false ∧
      ∀ other ∈ irqRange, hasIrq p.blockingIsr other = true →
        p.priorityRank irq < p.priorityRank other := by
  simp [deliverable, hasIrq_and_not, and_assoc]

/-- A line in service holds back everything of no higher priority, itself included, so
without automatic EOI the acknowledged controller has nothing more to deliver. -/
theorem not_hasPending_ackIrq (h : p.highestPending = some irq) (hauto : p.autoEoi = false) :
    (p.ackIrq irq).2.hasPending = false := by
  obtain ⟨hmem, hdel, hmin⟩ := highestPending_spec h
  obtain ⟨-, himr, -, -⟩ := deliverable_iff.mp hdel
  have hack : (p.ackIrq irq).2 =
      { p with irr := dropIrq p.irr irq, isr := raiseIrq p.isr irq } := by
    simp [ackIrq, hauto]
  rw [Bool.eq_false_iff]
  intro hpending
  obtain ⟨other, hother, hdel'⟩ := hasPending_iff.mp hpending
  rw [hack] at hdel'
  obtain ⟨hirr', himr', hisr', hfree⟩ := deliverable_iff.mp hdel'
  have hblocks : p.priorityRank other < p.priorityRank irq := by
    apply hfree irq hmem
    cases p.specialMaskMode <;> simp [blockingIsr, hasIrq_and_not, himr]
  have hbefore : p.deliverable other = true := by
    apply deliverable_iff.mpr
    refine ⟨by simp_all, himr', by simp_all, fun x hx hblk => hfree x hx ?_⟩
    cases hsmm : p.specialMaskMode <;> simp_all [blockingIsr, hasIrq_and_not]
  have := hmin other hother hbefore
  omega

/-- What driving a line does to the requests. -/
theorem setIrq_irr (p : Pic8259) (irq : BitVec 8) (level : Bool) :
    (p.setIrq irq level).irr = p.irr ∨
      (level = true ∧ (p.setIrq irq level).irr = raiseIrq p.irr irq) ∨
      (level = false ∧ p.levelTriggered = true ∧
        (p.setIrq irq level).irr = dropIrq p.irr irq) := by
  by_cases hirq : 7#8 < irq
  · simp [setIrq, hirq]
  · cases hlevel : p.levelTriggered <;> cases level <;> cases hhigh : hasIrq p.irqLines irq <;>
      simp [setIrq, hirq, hlevel, hhigh]

@[simp] theorem clearHighestIsr_irr (p : Pic8259) : p.clearHighestIsr.2.irr = p.irr := by
  unfold clearHighestIsr
  split <;> rfl

@[simp] theorem writeOcw2_irr (p : Pic8259) (value : BitVec 8) :
    (p.writeOcw2 value).irr = p.irr := by
  have hclear := p.clearHighestIsr_irr
  unfold writeOcw2
  split
  case h_3 => split <;> simp_all
  all_goals simp [specificEoi]

@[simp] theorem writeCommand_irr (p : Pic8259) (value : BitVec 8) :
    (p.writeCommand value).irr = if value.getLsbD 4 then 0#8 else p.irr := by
  unfold writeCommand
  split
  · rfl
  · split
    · rfl
    · exact p.writeOcw2_irr value

@[simp] theorem writeData_irr (p : Pic8259) (value : BitVec 8) :
    (p.writeData value).irr = p.irr := by
  unfold writeData
  split <;> rfl

@[simp] theorem ackIrq_irr (p : Pic8259) (irq : BitVec 8) :
    (p.ackIrq irq).2.irr = dropIrq p.irr irq := by
  simp only [ackIrq]
  split
  · split <;> rfl
  · rfl

/-- A command-port read changes nothing that delivery depends on, unless it is a poll that
acknowledges the line it reports. -/
theorem readCommand_cases (p : Pic8259) :
    (p.readCommand.2.irr = p.irr ∧ p.readCommand.2.hasPending = p.hasPending) ∨
      ∃ irq, p.pollMode = true ∧ p.highestPending = some irq ∧
        p.readCommand.2.irr = dropIrq p.irr irq := by
  have hhighest : { p with pollMode := false }.highestPending = p.highestPending := rfl
  unfold readCommand
  split
  case isTrue hpoll =>
    simp only [hhighest]
    cases hirq : p.highestPending with
    | none => exact .inl ⟨rfl, rfl⟩
    | some irq => exact .inr ⟨irq, hpoll, rfl, ackIrq_irr _ irq⟩
  case isFalse hpoll =>
    left
    split <;> exact ⟨rfl, rfl⟩

end Pic8259

/-- The two controllers of a PC. -/
structure DualPic where
  master : Pic8259
  slave : Pic8259

namespace DualPic

def new : DualPic := ⟨Pic8259.new 0x20#8, Pic8259.new 0x28#8⟩

/-- Recompute master line 2 from what the slave has to offer. -/
def refreshCascade (d : DualPic) : DualPic :=
  let slavePending := d.slave.hasPending
  let master := d.master.setIrq 2#8 slavePending
  if !slavePending && !master.levelTriggered && !hasIrq master.isr 2#8 then
    { d with master := { master with irr := dropIrq master.irr 2#8 } }
  else { d with master := master }

/-- Drive one of the sixteen lines. -/
def setIrq (d : DualPic) (irq : BitVec 8) (level : Bool) : DualPic :=
  if irq < 8#8 then { d with master := d.master.setIrq irq level }
  else if irq < 16#8 then
    refreshCascade { d with slave := d.slave.setIrq (irq - 8#8) level }
  else d

def pulseIrq (d : DualPic) (irq : BitVec 8) : DualPic := (d.setIrq irq true).setIrq irq false

/-- Acknowledge of master line 2 on behalf of the slave. -/
def ackCascade (d : DualPic) : BitVec 8 × DualPic :=
  let master := (d.master.ackIrq 2#8).2
  match d.slave.highestPending with
  | some slaveIrq =>
    let (vector, slave) := d.slave.ackIrq slaveIrq
    (vector, ⟨master, slave⟩)
  -- The cascade fired but the slave has nothing left: its spurious vector.
  | none => (d.slave.vectorOffset + spuriousIrq, { d with master := master })

/-- The acknowledge cycle of an injection. -/
def getPendingVector (d : DualPic) : Option (BitVec 8) × DualPic :=
  match d.master.highestPending with
  | none => (none, d)
  | some masterIrq =>
    if masterIrq = 2#8 ∧ d.master.singleMode = false then
      let (vector, d) := d.ackCascade
      (some vector, d)
    else
      let (vector, master) := d.master.ackIrq masterIrq
      (some vector, { d with master := master })

/-- Acknowledge of a line named by the caller. -/
def acknowledge (d : DualPic) (irq : BitVec 8) : BitVec 8 × DualPic :=
  if irq = 2#8 ∧ d.master.singleMode = false then d.ackCascade
  else if hasIrq d.master.irr irq then
    let (vector, master) := d.master.ackIrq irq
    (vector, { d with master := master })
  else (d.master.vectorOffset + spuriousIrq, d)

/-- A port write, of the master's or of the slave's device. -/
def writePort (d : DualPic) (port : BitVec 16) (value : BitVec 8) : DualPic :=
  if port = 0x20#16 then { d with master := d.master.writeCommand value }
  else if port = 0x21#16 then { d with master := d.master.writeData value }
  else if port = 0xA0#16 then refreshCascade { d with slave := d.slave.writeCommand value }
  else if port = 0xA1#16 then refreshCascade { d with slave := d.slave.writeData value }
  else d

/-- A port read. -/
def readPort (d : DualPic) (port : BitVec 16) : BitVec 8 × DualPic :=
  if port = 0x20#16 then
    let (value, master) := d.master.readCommand
    (value, { d with master := master })
  else if port = 0x21#16 then (d.master.readData, d)
  else if port = 0xA0#16 then
    let (value, slave) := d.slave.readCommand
    (value, { d with slave := slave })
  else if port = 0xA1#16 then (d.slave.readData, d)
  else (0xFF#8, d)

end DualPic

/-- The operations on the pair of controllers. -/
inductive PicEvent
  | setIrq (irq : BitVec 8) (level : Bool)
  | pulseIrq (irq : BitVec 8)
  | write (port : BitVec 16) (value : BitVec 8)
  | read (port : BitVec 16)
  | getPendingVector
  | acknowledge (irq : BitVec 8)

namespace DualPic

variable {d : DualPic}

def step (d : DualPic) : PicEvent → DualPic
  | .setIrq irq level => d.setIrq irq level
  | .pulseIrq irq => d.pulseIrq irq
  | .write port value => d.writePort port value
  | .read port => (d.readPort port).2
  | .getPendingVector => d.getPendingVector.2
  | .acknowledge irq => (d.acknowledge irq).2

/-- A slave request behind an open master line 2 gets through to the CPU. -/
def SlaveServed (d : DualPic) : Prop :=
  d.slave.hasPending = true → hasIrq d.master.imr 2#8 = false →
    (∀ irq ∈ irqRange, hasIrq d.master.isr irq = true →
      d.master.priorityRank 2#8 < d.master.priorityRank irq) →
    d.getPendingVector.1.isSome = true

/-- The request bit of master line 2 stands for every deliverable request of the slave. -/
def CascadeLatched (d : DualPic) : Prop :=
  d.slave.hasPending = true → hasIrq d.master.irr 2#8 = true

/-- A high level on master line 2 shows up as a request: in level mode always, in edge mode
if the line was low or the request is still there. -/
def CanLatch (master : Pic8259) : Prop :=
  master.levelTriggered = true ∨ hasIrq master.irqLines 2#8 = false ∨
    hasIrq master.irr 2#8 = true

/-- Master line 2 is given up only when the slave keeps nothing to deliver. -/
def CascadeSettled (d : DualPic) : Prop :=
  if d.master.singleMode then d.slave.hasPending = false
  else ∀ irq, d.slave.highestPending = some irq → d.slave.autoEoi = true →
    (d.slave.ackIrq irq).2.hasPending = false

/-- Changes of an input line that keep the cascade request. -/
def SetKeeps (d : DualPic) (irq : BitVec 8) (level : Bool) : Prop :=
  if irq < 8#8 then
    irq = 2#8 → level = false → d.master.levelTriggered = true → d.slave.hasPending = false
  else if irq < 16#8 then
    (d.slave.setIrq (irq - 8#8) level).hasPending = true → CanLatch d.master
  else True

/-- Port writes that keep the cascade request. -/
def WriteKeeps (d : DualPic) (port : BitVec 16) (value : BitVec 8) : Prop :=
  if port = 0x20#16 then value.getLsbD 4 = true → d.slave.hasPending = false
  else if port = 0xA0#16 then
    (d.slave.writeCommand value).hasPending = true → CanLatch d.master
  else if port = 0xA1#16 then
    (d.slave.writeData value).hasPending = true → CanLatch d.master
  else True

/-- The steps that keep the cascade request. -/
def Keeps (d : DualPic) : PicEvent → Prop
  | .setIrq irq level => d.SetKeeps irq level
  | .pulseIrq irq => d.SetKeeps irq true ∧ (d.setIrq irq true).SetKeeps irq false
  | .write port value => d.WriteKeeps port value
  | .read port => port = 0x20#16 → d.master.pollMode = true →
      d.master.highestPending = some 2#8 → d.slave.hasPending = false
  | .getPendingVector => d.master.highestPending = some 2#8 → d.CascadeSettled
  | .acknowledge irq =>
    if irq = 2#8 then d.CascadeSettled
    else irqIndex irq = 2 → hasIrq d.master.irr 2#8 = true → d.slave.hasPending = false

theorem SlaveServed.of_latched (h : d.CascadeLatched) : d.SlaveServed := by
  intro hslave himr hfree
  have hclear : hasIrq d.master.isr 2#8 = false := by
    rw [Bool.eq_false_iff]
    intro hisr
    exact Nat.lt_irrefl _ (hfree 2#8 (by decide) hisr)
  have hmaster : d.master.hasPending = true := by
    refine Pic8259.hasPending_iff.mpr ⟨2#8, by decide, Pic8259.deliverable_iff.mpr ?_⟩
    refine ⟨h hslave, himr, hclear, fun other hother hblk => hfree other hother ?_⟩
    cases hsmm : d.master.specialMaskMode <;>
      simp_all [Pic8259.blockingIsr, hasIrq_and_not]
  obtain ⟨irq, hirq⟩ := Option.isSome_iff_exists.mp hmaster
  rw [getPendingVector, hirq]
  by_cases hcascade : irq = 2#8 ∧ d.master.singleMode = false <;> simp [hcascade]

theorem CascadeLatched.refresh (h : d.slave.hasPending = true → CanLatch d.master) :
    d.refreshCascade.CascadeLatched := by
  intro hpending
  have hslave : d.refreshCascade.slave = d.slave := by
    simp only [refreshCascade]
    split <;> rfl
  rw [hslave] at hpending
  simp only [refreshCascade, hpending, Bool.not_true, Bool.false_and, Bool.false_eq_true,
    if_false]
  rcases h hpending with hlevel | hlow | hreq
  · simp [Pic8259.setIrq, hlevel]
  · cases hlevel : d.master.levelTriggered <;> simp [Pic8259.setIrq, hlevel, hlow]
  · cases hlevel : d.master.levelTriggered <;>
      cases hlow : hasIrq d.master.irqLines 2#8 <;> simp [Pic8259.setIrq, hlevel, hlow, hreq]

/-- Replacing the master keeps the invariant if its request on line 2 stays. -/
theorem CascadeLatched.of_master {master : Pic8259} (h : d.CascadeLatched)
    (hkeep : d.slave.hasPending = true → hasIrq d.master.irr 2#8 = true →
      hasIrq master.irr 2#8 = true) : CascadeLatched { d with master := master } :=
  fun hpending => hkeep hpending (h hpending)

theorem eq_two_of_irqIndex {irq : BitVec 8} (hlt : irq < 8#8)
    (hindex : irqIndex 2#8 = irqIndex irq) : irq = 2#8 := by
  apply BitVec.eq_of_toNat_eq
  simp only [irqIndex] at hindex
  bv_omega

theorem CascadeLatched.setIrq {irq : BitVec 8} {level : Bool} (h : d.CascadeLatched)
    (hkeeps : d.SetKeeps irq level) : (d.setIrq irq level).CascadeLatched := by
  unfold SetKeeps at hkeeps
  unfold DualPic.setIrq
  split at hkeeps
  case isTrue hmaster =>
    rw [if_pos hmaster]
    apply h.of_master
    intro hpending hreq
    rcases d.master.setIrq_irr irq level with hirr | ⟨-, hirr⟩ | ⟨hlow, hlevel, hirr⟩
    · rw [hirr, hreq]
    · rw [hirr, hasIrq_raiseIrq, hreq, Bool.true_or]
    · have hne : irqIndex 2#8 ≠ irqIndex irq := by
        intro hindex
        have hquiet := hkeeps (eq_two_of_irqIndex hmaster hindex) hlow hlevel
        simp [hquiet] at hpending
      simp [hirr, hreq, hne]
  case isFalse hslave =>
    rw [if_neg hslave]
    split at hkeeps
    case isTrue hlt => rw [if_pos hlt]; exact .refresh hkeeps
    case isFalse hge => rw [if_neg hge]; exact h

theorem CascadeLatched.writePort {port : BitVec 16} {value : BitVec 8} (h : d.CascadeLatched)
    (hkeeps : d.WriteKeeps port value) : (d.writePort port value).CascadeLatched := by
  unfold WriteKeeps at hkeeps
  unfold DualPic.writePort
  split at hkeeps
  case isTrue hport =>
    rw [if_pos hport]
    apply h.of_master
    intro hpending hreq
    cases hicw1 : value.getLsbD 4 with
    | true => simp [hkeeps hicw1] at hpending
    | false =>
      simp only [Pic8259.writeCommand_irr, hicw1, Bool.false_eq_true, if_false]
      exact hreq
  case isFalse hport =>
    rw [if_neg hport]
    by_cases hdata : port = 0x21#16
    · rw [if_pos hdata]
      apply h.of_master
      intro _ hreq
      rwa [Pic8259.writeData_irr]
    · rw [if_neg hdata]
      split at hkeeps
      case isTrue hcommand => rw [if_pos hcommand]; exact .refresh hkeeps
      case isFalse hcommand =>
        rw [if_neg hcommand]
        split at hkeeps
        case isTrue hmask => rw [if_pos hmask]; exact .refresh hkeeps
        case isFalse hmask => rw [if_neg hmask]; exact h

/-- Serving the slave through line 2 leaves it with nothing to deliver. -/
theorem CascadeSettled.ackCascade (h : d.CascadeSettled) (hmode : d.master.singleMode = false) :
    d.ackCascade.2.CascadeLatched := by
  intro hpending
  rw [CascadeSettled, hmode, if_neg (by simp)] at h
  exfalso
  cases hslave : d.slave.highestPending with
  | none => simp [DualPic.ackCascade, hslave, Pic8259.hasPending] at hpending
  | some irq =>
    have hquiet : (d.slave.ackIrq irq).2.hasPending = false := by
      cases hauto : d.slave.autoEoi with
      | true => exact h irq hslave hauto
      | false => exact Pic8259.not_hasPending_ackIrq hslave hauto
    simp [DualPic.ackCascade, hslave, hquiet] at hpending

/-- Acknowledging a master line other than 2 does not touch the cascade. -/
theorem CascadeLatched.ackMaster {irq : BitVec 8} (h : d.CascadeLatched)
    (hkeeps : irqIndex irq = 2 → d.slave.hasPending = false) :
    CascadeLatched { d with master := (d.master.ackIrq irq).2 } := by
  apply h.of_master
  intro hpending hreq
  have hne : irqIndex 2#8 ≠ irqIndex irq := by
    intro hindex
    simp [hkeeps hindex.symm] at hpending
  simp [hreq, hne]

theorem CascadeLatched.getPendingVector (h : d.CascadeLatched)
    (hkeeps : d.Keeps .getPendingVector) : d.getPendingVector.2.CascadeLatched := by
  unfold DualPic.getPendingVector
  cases hirq : d.master.highestPending with
  | none => exact h
  | some irq =>
    by_cases hcascade : irq = 2#8 ∧ d.master.singleMode = false
    · simp only [hcascade, and_self, if_true]
      exact (hkeeps (by rw [hirq, hcascade.1])).ackCascade hcascade.2
    · simp only [hcascade, if_false]
      apply h.ackMaster
      intro hindex
      have htwo : irq = 2#8 :=
        eq_of_irqIndex_eq (Pic8259.highestPending_spec hirq).1 (by decide) hindex
      have hmode : d.master.singleMode = true := by simpa [htwo] using hcascade
      simpa [CascadeSettled, hmode] using hkeeps (by rw [hirq, htwo])

theorem CascadeLatched.acknowledge {irq : BitVec 8} (h : d.CascadeLatched)
    (hkeeps : d.Keeps (.acknowledge irq)) : (d.acknowledge irq).2.CascadeLatched := by
  unfold DualPic.acknowledge
  simp only [Keeps] at hkeeps
  by_cases hcascade : irq = 2#8 ∧ d.master.singleMode = false
  · rw [if_pos hcascade]
    rw [if_pos hcascade.1] at hkeeps
    exact hkeeps.ackCascade hcascade.2
  · rw [if_neg hcascade]
    cases hreq : hasIrq d.master.irr irq with
    | false => exact h
    | true =>
      apply h.ackMaster
      intro hindex
      by_cases htwo : irq = 2#8
      · have hmode : d.master.singleMode = true := by simpa [htwo] using hcascade
        simpa [htwo, CascadeSettled, hmode] using hkeeps
      · rw [if_neg htwo] at hkeeps
        rw [hasIrq_eq, hindex] at hreq
        exact hkeeps hindex (by rw [hasIrq_eq]; exact hreq)

theorem CascadeLatched.readPort {port : BitVec 16} (h : d.CascadeLatched)
    (hkeeps : d.Keeps (.read port)) : (d.readPort port).2.CascadeLatched := by
  unfold DualPic.readPort
  by_cases hmaster : port = 0x20#16
  · rw [if_pos hmaster]
    apply h.of_master
    intro hpending hreq
    rcases d.master.readCommand_cases with ⟨hirr, -⟩ | ⟨irq, hpoll, hirq, hirr⟩
    · rwa [hirr]
    · have hne : irqIndex 2#8 ≠ irqIndex irq := by
        intro hindex
        have htwo : irq = 2#8 :=
          eq_of_irqIndex_eq (Pic8259.highestPending_spec hirq).1 (by decide) hindex.symm
        simp [hkeeps hmaster hpoll (by rw [hirq, htwo])] at hpending
      simp [hirr, hreq, hne]
  · rw [if_neg hmaster]
    by_cases hmask : port = 0x21#16
    · rw [if_pos hmask]
      exact h
    · rw [if_neg hmask]
      by_cases hslave : port = 0xA0#16
      · rw [if_pos hslave]
        intro hpending
        apply h
        rcases d.slave.readCommand_cases with ⟨-, hsame⟩ | ⟨irq, -, hirq, -⟩
        · rwa [← hsame]
        · rw [Pic8259.hasPending, hirq, Option.isSome_some]
      · rw [if_neg hslave]
        split <;> exact h

theorem CascadeLatched.step {e : PicEvent} (h : d.CascadeLatched) (hkeeps : d.Keeps e) :
    (d.step e).CascadeLatched := by
  cases e with
  | setIrq irq level => exact h.setIrq hkeeps
  | pulseIrq irq => exact (h.setIrq hkeeps.1).setIrq hkeeps.2
  | write port value => exact h.writePort hkeeps
  | read port => exact h.readPort hkeeps
  | getPendingVector => exact h.getPendingVector hkeeps
  | acknowledge irq => exact h.acknowledge hkeeps

/-- In every run from reset whose steps keep the cascade request, no slave request is lost. -/
theorem slave_request_delivered
    (h : Reachable (· = DualPic.new) (fun d e d' => Keeps d e ∧ d' = d.step e) d) :
    d.SlaveServed := by
  apply SlaveServed.of_latched
  refine h.invariant ?_ ?_
  · rintro d rfl hpending
    exact absurd hpending (by decide)
  · rintro d e d' hinv ⟨hkeeps, rfl⟩
    exact hinv.step hkeeps

/-- A slave request behind open masks. -/
def oneRequest : List PicEvent :=
  [.write 0x21#16 0x00#8, .write 0xA1#16 0x00#8, .pulseIrq 8#8]

theorem slave_request_delivered_single :
    (oneRequest.foldl DualPic.step DualPic.new).slave.hasPending = true ∧
      (oneRequest.foldl DualPic.step DualPic.new).SlaveServed := by
  refine ⟨by decide +kernel, slave_request_delivered ?_⟩
  change Reachable _ _ (((DualPic.new.step (.write 0x21#16 0x00#8)).step
    (.write 0xA1#16 0x00#8)).step (.pulseIrq 8#8))
  refine .step (.step (.step (.init rfl) ⟨?_, rfl⟩) ⟨?_, rfl⟩) ⟨?_, rfl⟩
  · simp [Keeps, WriteKeeps]
  · intro _
    exact .inr (.inl (by decide +kernel))
  · exact ⟨fun _ => .inr (.inl (by decide +kernel)), fun _ => .inr (.inr (by decide +kernel))⟩

/-- Two slave requests, one acknowledge and the two EOIs that end it. -/
def twoRequests : List PicEvent :=
  [.write 0x21#16 0x00#8, .write 0xA1#16 0x00#8, .pulseIrq 8#8, .pulseIrq 9#8,
    .getPendingVector, .write 0xA0#16 0x20#8, .write 0x20#16 0x20#8]

/-- The slave's EOI makes its second request deliverable, but the cascade line never went
low, so the master latches nothing. -/
theorem second_slave_request_lost :
    ¬ (twoRequests.foldl DualPic.step DualPic.new).SlaveServed := by
  unfold SlaveServed
  decide +kernel

end DualPic

end Rax.Devices

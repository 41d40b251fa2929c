import Rax.Devices.VirtioMmio
import Rax.Lib.LastWrite

/-!
# Selectors of the virtio-mmio transport

`QueueSel` and `DriverFeaturesSel` say which queue and which feature word the other registers act
on. Every field of a queue and both feature words hold what was written last under their selector.
A selector beyond the last queue or feature word stands for the last one.
-/

namespace Rax.Devices

namespace VirtQueue

/-- The queue's configuration is the same; only the device's position may differ. -/
structure SameConfig (q r : VirtQueue) : Prop where
  size : r.size = q.size
  ready : r.ready = q.ready
  descAddr : r.descAddr = q.descAddr
  availAddr : r.availAddr = q.availAddr
  usedAddr : r.usedAddr = q.usedAddr

theorem SameConfig.refl (q : VirtQueue) : q.SameConfig q := ⟨rfl, rfl, rfl, rfl, rfl⟩

theorem SameConfig.trans {p q r : VirtQueue} (h : p.SameConfig q) (h' : q.SameConfig r) :
    p.SameConfig r :=
  ⟨h'.size.trans h.size, h'.ready.trans h.ready, h'.descAddr.trans h.descAddr,
    h'.availAddr.trans h.availAddr, h'.usedAddr.trans h.usedAddr⟩

end VirtQueue

namespace QueueRun

variable {σ : Type} (handler : Handler σ)

theorem consume_sameConfig (w : QueueRun σ) :
    w.queue.SameConfig (w.consume handler).1.queue := by
  rw [consume]
  split
  · exact .refl _
  · split
    · exact .refl _
    · split
      · exact .refl _
      · dsimp only
        split
        · exact ⟨rfl, rfl, rfl, rfl, rfl⟩
        · exact .refl _

theorem walk_sameConfig (n : Nat) (w : QueueRun σ) :
    w.queue.SameConfig (w.walk handler n).1.queue := by
  induction n generalizing w with
  | zero => exact .refl _
  | succ n ih =>
    have hone := w.consume_sameConfig handler
    rw [walk]
    cases hconsume : w.consume handler with
    | mk v more =>
      rw [hconsume] at hone
      cases more with
      | true => exact hone.trans (ih v)
      | false => exact hone

theorem process_sameConfig (w : QueueRun σ) :
    w.queue.SameConfig (w.process handler).1.queue := by
  rw [process]
  split
  · exact .refl _
  · split
    · exact .refl _
    · exact w.walk_sameConfig handler _

end QueueRun

/-- A device whose queue handler leaves the configuration of the queue alone. -/
def VirtioDevice.KeepsConfig {δ μ : Type} (dev : VirtioDevice δ μ) : Prop :=
  ∀ d idx (q : VirtQueue) mem, q.SameConfig (dev.handleQueue d idx q mem).2.1

/-- A device that only drains its queues, as `VirtioBlk` does with its request handler. -/
def drainingDevice {σ : Type} (handler : Handler σ) : VirtioDevice σ FlatMem where
  deviceId _ := 0
  deviceFeatures _ := 0
  configRead _ _ := 0
  configWrite d _ _ := d
  handleQueue d _ q mem :=
    let done := (QueueRun.process handler { queue := q, mem := mem, state := d }).1
    (done.state, done.queue, done.mem)

theorem drainingDevice_keepsConfig {σ : Type} (handler : Handler σ) :
    (drainingDevice handler).KeepsConfig := by
  intro d idx q mem
  exact QueueRun.process_sameConfig handler { queue := q, mem := mem, state := d }

/-- The parts of a queue that have a register of their own. -/
inductive QueueField
  | size | ready | descLow | descHigh | driverLow | driverHigh | deviceLow | deviceHigh
  deriving DecidableEq

namespace QueueField

def reg : QueueField → VirtioReg
  | .size => .queueNum
  | .ready => .queueReady
  | .descLow => .queueDescLow
  | .descHigh => .queueDescHigh
  | .driverLow => .queueDriverLow
  | .driverHigh => .queueDriverHigh
  | .deviceLow => .queueDeviceLow
  | .deviceHigh => .queueDeviceHigh

def read : QueueField → VirtQueue → Reg
  | .size, q => q.size
  | .ready, q => if q.ready then 1 else 0
  | .descLow, q => q.descAddr.lowHalf
  | .descHigh, q => q.descAddr.highHalf
  | .driverLow, q => q.availAddr.lowHalf
  | .driverHigh, q => q.availAddr.highHalf
  | .deviceLow, q => q.usedAddr.lowHalf
  | .deviceHigh, q => q.usedAddr.highHalf

/-- What the queue keeps of a written value. -/
def stored : QueueField → Reg → Reg
  | .size, v => VirtioMmio.queueSize v
  | .ready, v => if v.getLsbD 0 then 1 else 0
  | _, v => v

theorem read_of_sameConfig (field : QueueField) {q r : VirtQueue} (h : q.SameConfig r) :
    field.read r = field.read q := by
  cases field <;> simp only [read, h.size, h.ready, h.descAddr, h.availAddr, h.usedAddr]

theorem reg_injective {field other : QueueField} (h : other.reg = field.reg) : field = other := by
  cases field <;> cases other <;> first | rfl | cases h

end QueueField

namespace VirtioMmio

variable {n : Nat} {δ μ : Type} (dev : VirtioDevice δ μ) (s : VirtioMmio n δ μ)

theorem setSelectedQueue_queues (q : VirtQueue) (i : Fin (n + 1)) :
    (s.setSelectedQueue q).queues i = if s.selectedIndex = i then q else s.queues i := by
  rw [setSelectedQueue]
  by_cases h : s.selectedIndex = i
  · subst h
    rw [if_pos rfl]
    exact Function.update_self _ _ _
  · rw [if_neg h]
    exact Function.update_of_ne (Ne.symm h) _ _

/-- A write in a run: no reset. -/
def NoReset (w : Option VirtioReg × Reg) : Prop := w.1 = some .status → w.2 ≠ 0

def write (s : VirtioMmio n δ μ) (w : Option VirtioReg × Reg) : VirtioMmio n δ μ :=
  s.writeReg dev w.2 w.1

variable {dev}

theorem read_writeReg_of_same {reg : Option VirtioReg} {v : Reg} {i : Fin (n + 1)}
    (hsame : (s.queues i).SameConfig ((s.writeReg dev v reg).queues i))
    (field : QueueField) (hreg : reg ≠ some field.reg) :
    field.read ((s.writeReg dev v reg).queues i) =
      if reg = some field.reg ∧ s.selectedIndex = i then field.stored v
      else field.read (s.queues i) := by
  rw [if_neg fun h => hreg h.1, field.read_of_sameConfig hsame]

theorem read_writeReg_of_field (other : QueueField) {v : Reg} {q : VirtQueue} {i : Fin (n + 1)}
    (hwrite : s.writeReg dev v (some other.reg) = s.setSelectedQueue q)
    (hread : ∀ field : QueueField, field.read q =
      if field = other then field.stored v else field.read s.selectedQueue)
    (field : QueueField) :
    field.read ((s.writeReg dev v (some other.reg)).queues i) =
      if some other.reg = some field.reg ∧ s.selectedIndex = i then field.stored v
      else field.read (s.queues i) := by
  rw [hwrite, setSelectedQueue_queues]
  by_cases hindex : s.selectedIndex = i
  · subst hindex
    rw [if_pos rfl, hread]
    by_cases hfield : field = other
    · rw [if_pos hfield, if_pos ⟨by rw [hfield], rfl⟩]
    · rw [if_neg hfield, if_neg fun h => hfield (QueueField.reg_injective (Option.some.inj h.1))]
      rfl
  · rw [if_neg hindex, if_neg fun h => hindex h.2]

theorem notify_sameConfig (hdev : dev.KeepsConfig) (idx : Nat) (i : Fin (n + 1)) :
    (s.queues i).SameConfig ((s.notify dev idx).queues i) := by
  rw [notify]
  split
  case isTrue h =>
    by_cases hi : i = ⟨idx, h⟩
    · subst hi
      dsimp only
      rw [Function.update_self]
      exact hdev _ _ _ _
    · dsimp only
      rw [Function.update_of_ne hi]
      exact .refl _
  case isFalse h => exact .refl _

theorem read_writeReg (hdev : dev.KeepsConfig) (field : QueueField) (i : Fin (n + 1))
    (reg : Option VirtioReg) (v : Reg) (hreset : NoReset (reg, v)) :
    field.read ((s.writeReg dev v reg).queues i) =
      if reg = some field.reg ∧ s.selectedIndex = i then field.stored v
      else field.read (s.queues i) := by
  have hother {reg : VirtioReg}
      (hsame : (s.queues i).SameConfig ((s.writeReg dev v (some reg)).queues i))
      (hreg : ∀ field : QueueField, field.reg ≠ reg) :=
    s.read_writeReg_of_same hsame field fun h => hreg field (Option.some.inj h).symm
  cases reg with
  | none => exact s.read_writeReg_of_same (.refl _) field (by simp)
  | some reg =>
    cases reg
    case queueNum =>
      refine s.read_writeReg_of_field .size rfl (fun field => ?_) field
      cases field <;> rfl
    case queueReady =>
      refine s.read_writeReg_of_field .ready rfl (fun field => ?_) field
      cases field <;> rfl
    case queueDescLow =>
      refine s.read_writeReg_of_field .descLow rfl (fun field => ?_) field
      cases field <;> simp [QueueField.read, QueueField.stored]
    case queueDescHigh =>
      refine s.read_writeReg_of_field .descHigh rfl (fun field => ?_) field
      cases field <;> simp [QueueField.read, QueueField.stored]
    case queueDriverLow =>
      refine s.read_writeReg_of_field .driverLow rfl (fun field => ?_) field
      cases field <;> simp [QueueField.read, QueueField.stored]
    case queueDriverHigh =>
      refine s.read_writeReg_of_field .driverHigh rfl (fun field => ?_) field
      cases field <;> simp [QueueField.read, QueueField.stored]
    case queueDeviceLow =>
      refine s.read_writeReg_of_field .deviceLow rfl (fun field => ?_) field
      cases field <;> simp [QueueField.read, QueueField.stored]
    case queueDeviceHigh =>
      refine s.read_writeReg_of_field .deviceHigh rfl (fun field => ?_) field
      cases field <;> simp [QueueField.read, QueueField.stored]
    case queueNotify =>
      refine hother (s.notify_sameConfig hdev v.toNat i) fun field => ?_
      cases field <;> simp [QueueField.reg]
    case status =>
      have hwrite : s.writeReg dev v (some .status) = { s with status := v } :=
        if_neg (hreset rfl)
      refine hother ?_ fun field => by cases field <;> simp [QueueField.reg]
      rw [hwrite]
      exact .refl _
    all_goals exact hother (.refl _) fun field => by cases field <;> simp [QueueField.reg]

/-- The selectors and the feature word change only by writes to their registers. -/
theorem writeReg_negotiation (reg : Option VirtioReg) (v : Reg) (hreset : NoReset (reg, v)) :
    (s.writeReg dev v reg).queueSel = (if reg = some .queueSel then v else s.queueSel) ∧
      (s.writeReg dev v reg).driverFeaturesSel =
        (if reg = some .driverFeaturesSel then v else s.driverFeaturesSel) ∧
      (s.writeReg dev v reg).driverFeatures =
        (if reg = some .driverFeatures then
          (if s.driverFeaturesSel = 0 then s.driverFeatures.withLow v
          else s.driverFeatures.withHigh v)
        else s.driverFeatures) := by
  cases reg with
  | none => exact ⟨rfl, rfl, rfl⟩
  | some reg =>
    cases reg
    case status =>
      have hwrite : s.writeReg dev v (some .status) = { s with status := v } :=
        if_neg (hreset rfl)
      rw [hwrite]
      exact ⟨rfl, rfl, rfl⟩
    case queueNotify =>
      have hwrite : s.writeReg dev v (some .queueNotify) = s.notify dev v.toNat := rfl
      rw [hwrite, notify]
      split <;> exact ⟨rfl, rfl, rfl⟩
    all_goals exact ⟨rfl, rfl, rfl⟩

theorem wordOf_eq_zero_iff (sel : Reg) : (min sel.toNat 1 == 0) = true ↔ sel = 0 := by
  rw [beq_iff_eq, ← BitVec.toNat_inj]
  show min sel.toNat 1 = 0 ↔ sel.toNat = 0
  omega

theorem wordOf_eq_one_iff (sel : Reg) : (min sel.toNat 1 == 1) = true ↔ sel ≠ 0 := by
  rw [beq_iff_eq, ne_eq, ← BitVec.toNat_inj]
  show min sel.toNat 1 = 1 ↔ ¬ sel.toNat = 0
  omega

theorem lowHalf_writeReg (reg : Option VirtioReg) (v : Reg) (hreset : NoReset (reg, v)) :
    (s.writeReg dev v reg).driverFeatures.lowHalf =
      if reg = some .driverFeatures ∧ (min s.driverFeaturesSel.toNat 1 == 0) = true then v
      else s.driverFeatures.lowHalf := by
  have hword := wordOf_eq_zero_iff s.driverFeaturesSel
  rw [(s.writeReg_negotiation reg v hreset).2.2]
  by_cases hreg : reg = some .driverFeatures
  · rw [if_pos hreg]
    by_cases hsel : s.driverFeaturesSel = 0
    · rw [if_pos hsel, if_pos ⟨hreg, hword.mpr hsel⟩, Word.lowHalf_withLow]
    · rw [if_neg hsel, if_neg fun h => hsel (hword.mp h.2), Word.lowHalf_withHigh]
  · rw [if_neg hreg, if_neg fun h => hreg h.1]

theorem highHalf_writeReg (reg : Option VirtioReg) (v : Reg) (hreset : NoReset (reg, v)) :
    (s.writeReg dev v reg).driverFeatures.highHalf =
      if reg = some .driverFeatures ∧ (min s.driverFeaturesSel.toNat 1 == 1) = true then v
      else s.driverFeatures.highHalf := by
  have hword := wordOf_eq_one_iff s.driverFeaturesSel
  rw [(s.writeReg_negotiation reg v hreset).2.2]
  by_cases hreg : reg = some .driverFeatures
  · rw [if_pos hreg]
    by_cases hsel : s.driverFeaturesSel = 0
    · rw [if_pos hsel, if_neg fun h => hword.mp h.2 hsel, Word.highHalf_withLow]
    · rw [if_neg hsel, if_pos ⟨hreg, hword.mpr hsel⟩, Word.highHalf_withHigh]
  · rw [if_neg hreg, if_neg fun h => hreg h.1]

/-! ## Runs of writes -/

/-- After the writes, each queue field and feature word is the one written last while its selector
stood for it, as `queueOf` and `wordOf` read the selectors. -/
structure FollowsSelectors (queueOf wordOf : Reg → Nat) (s : VirtioMmio n δ μ)
    (writes : List (Option VirtioReg × Reg)) (t : VirtioMmio n δ μ) : Prop where
  queue : ∀ (field : QueueField) (i : Fin (n + 1)), field.read (t.queues i) =
    ((lastWrite (some .queueSel) (some field.reg) (fun sel => queueOf sel == i) s.queueSel
      writes).map field.stored).getD (field.read (s.queues i))
  lowFeatures : t.driverFeatures.lowHalf =
    (lastWrite (some .driverFeaturesSel) (some .driverFeatures) (fun sel => wordOf sel == 0)
      s.driverFeaturesSel writes).getD s.driverFeatures.lowHalf
  highFeatures : t.driverFeatures.highHalf =
    (lastWrite (some .driverFeaturesSel) (some .driverFeatures) (fun sel => wordOf sel == 1)
      s.driverFeaturesSel writes).getD s.driverFeatures.highHalf

/-- The transport follows its selectors, clamped to the last queue and the last feature word. -/
theorem writes_follow_clamped (hdev : dev.KeepsConfig) (writes : List (Option VirtioReg × Reg))
    (hreset : ∀ w ∈ writes, NoReset w) :
    FollowsSelectors (fun sel => min sel.toNat n) (fun sel => min sel.toNat 1) s writes
      (writes.foldl (write dev) s) := by
  have hwordSel (s : VirtioMmio n δ μ) (r : Option VirtioReg) (v : Reg) (hr : NoReset (r, v)) :
      (s.write dev (r, v)).driverFeaturesSel =
        if r = some .driverFeaturesSel then v else s.driverFeaturesSel :=
    (s.writeReg_negotiation r v hr).2.1
  constructor
  · intro field i
    refine cell_eq_lastWrite (write dev) queueSel (fun t => field.read (t.queues i)) field.stored
      (fun s r v hr => (s.writeReg_negotiation r v hr).1) (fun s r v hr => ?_) writes hreset s
    refine (s.read_writeReg hdev field i r v hr).trans ?_
    simp only [selectedIndex, Fin.ext_iff, beq_iff_eq]
  · have hlow := cell_eq_lastWrite (write dev) driverFeaturesSel
      (fun t : VirtioMmio n δ μ => t.driverFeatures.lowHalf) id hwordSel
      (P := fun sel => min sel.toNat 1 == 0) (fun s r v hr => s.lowHalf_writeReg r v hr)
      writes hreset s
    rwa [Option.map_id] at hlow
  · have hhigh := cell_eq_lastWrite (write dev) driverFeaturesSel
      (fun t : VirtioMmio n δ μ => t.driverFeatures.highHalf) id hwordSel
      (P := fun sel => min sel.toNat 1 == 1) (fun s r v hr => s.highHalf_writeReg r v hr)
      writes hreset s
    rwa [Option.map_id] at hhigh

/-- A device with one queue, after power-on. -/
def oneQueue : VirtioMmio 0 Nat FlatMem := { base := 0, device := 0, mem := ⟨0, fun _ => 0⟩ }

/-- A queue size written under a selector that names no queue. -/
def sizeBeyond : List (Option VirtioReg × Reg) := [(some .queueSel, 5), (some .queueNum, 16)]

theorem writes_follow_clamped_sizeBeyond :
    FollowsSelectors (fun sel => min sel.toNat 0) (fun sel => min sel.toNat 1) oneQueue sizeBeyond
      (sizeBeyond.foldl (write (drainingDevice QueueRun.countCalls)) oneQueue) :=
  writes_follow_clamped oneQueue (drainingDevice_keepsConfig QueueRun.countCalls) sizeBeyond
    (by simp [sizeBeyond, NoReset])

/-- The size goes to queue 0, although the selector was 5. -/
theorem sizeBeyond_changes_queue :
    ¬ FollowsSelectors BitVec.toNat BitVec.toNat oneQueue sizeBeyond
      (sizeBeyond.foldl (write (drainingDevice QueueRun.countCalls)) oneQueue) := by
  intro h
  have hsize : (16 : Reg) = 0 := h.queue .size 0
  exact absurd hsize (by decide)

end VirtioMmio

end Rax.Devices

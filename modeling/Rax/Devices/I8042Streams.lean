import Rax.Devices.I8042
import Rax.Lib.Latch

/-!
# The byte streams of the keyboard controller

The controller is a latch fed by two queues: keyboard bytes, mouse bytes and the controller's own
replies share the output byte. The controller is run together with a record of what it accepts into
each stream and of what port 0x60 returns. The record is of the model only.

Nothing is lost as long as no command that replies is written while a byte is shown: the reply takes
the place of that byte.
-/

namespace Rax.Devices

inductive KbcStream
  | keyboard | aux | reply
  deriving DecidableEq, Repr

/-- What happens to the controller. -/
inductive KbcOp
  | pushKeyboardScancode (scancode : Byte)
  | pushMouseByte (byte : Byte)
  | pushMouseMovement (dx dy : BitVec 16) (buttons dz : Byte)
  | read (port : BitVec 16)
  | write (port : BitVec 16) (value : Byte)
  | clearKeyboardIrq
  | clearAuxIrq
  | clearResetRequest

namespace I8042

def step (s : I8042) : KbcOp → I8042
  | .pushKeyboardScancode scancode => s.pushKeyboardScancode scancode
  | .pushMouseByte byte => s.pushMouseByte byte
  | .pushMouseMovement dx dy buttons dz => s.pushMouseMovement dx dy buttons dz
  | .read port => (s.read port).2
  | .write port value => s.write port value
  | .clearKeyboardIrq => { s with kbdIrqPending := false }
  | .clearAuxIrq => { s with auxIrqPending := false }
  | .clearResetRequest => { s with resetRequested := false }

end I8042

/-- The controller and the record of its streams. -/
structure Traced where
  dev : I8042 := {}
  log : Latch KbcStream Byte := {}

namespace Traced

def refill (t : Traced) : Traced :=
  ⟨t.dev.refillOutputBuffer, (t.log.promote .keyboard).promote .aux⟩

/-- A byte is accepted when its queue has room. -/
def enqueueKeyboardByte (t : Traced) (byte : Byte) : Traced where
  dev := t.dev.enqueueKeyboardByte byte
  log := if t.dev.kbdQueue.length < I8042.deviceQueueCapacity then t.log.enqueue .keyboard byte
    else t.log

def enqueueAuxByte (t : Traced) (byte : Byte) : Traced where
  dev := t.dev.enqueueAuxByte byte
  log := if t.dev.auxQueue.length < I8042.deviceQueueCapacity then t.log.enqueue .aux byte
    else t.log

def pushKeyboardScancode (t : Traced) (scancode : Byte) : Traced :=
  if !t.dev.kbdEnabled then t else (t.enqueueKeyboardByte scancode).refill

def pushMouseByte (t : Traced) (byte : Byte) : Traced :=
  if !t.dev.auxEnabled then t else (t.enqueueAuxByte byte).refill

def pushMouseBytes (t : Traced) (bytes : List Byte) : Traced := bytes.foldl pushMouseByte t

/-- Replace the controller by one whose queues and output byte are the same. -/
def withDev (t : Traced) (dev : I8042) : Traced := ⟨dev, t.log⟩

def pushMouseMovement (t : Traced) (dx dy : BitVec 16) (buttons dz : Byte) : Traced :=
  if !t.dev.mouse.reporting || !t.dev.mouse.streamMode then t.withDev (t.dev.withButtons buttons)
  else (t.withDev (t.dev.withButtons buttons)).pushMouseBytes
    (t.dev.mouse.movementPacket dx dy buttons dz)

/-- The byte that is shown is taken. -/
def readData (t : Traced) : Traced :=
  refill ⟨{ t.dev with outputByte := none, outputIsAux := false }, t.log.take⟩

def mouseInput (t : Traced) (byte : Byte) : Traced :=
  (t.withDev { t.dev with mouse := (t.dev.mouse.input byte).1 }).pushMouseBytes
    (t.dev.mouse.input byte).2

def writeData (t : Traced) (value : Byte) : Traced :=
  match t.dev.pending with
  | .commandByte => t.withDev (t.dev.writeData value)
  | .outputPort => t.withDev (t.dev.writeData value)
  | .auxByte => (t.withDev t.dev.idle).mouseInput value
  | .none =>
    if t.dev.kbdEnabled then
      ((t.withDev t.dev.idle).enqueueKeyboardByte 0xFA).refill
    else t.withDev t.dev.idle

/-- A reply is accepted into the output byte. -/
def writeCommand (t : Traced) (command : Byte) : Traced :=
  match t.dev.replyOf command with
  | some (s, byte) => ⟨s.reply byte, t.log.put .reply byte⟩
  | none => t.withDev (t.dev.silentCommand command)

def step (t : Traced) : KbcOp → Traced
  | .pushKeyboardScancode scancode => t.pushKeyboardScancode scancode
  | .pushMouseByte byte => t.pushMouseByte byte
  | .pushMouseMovement dx dy buttons dz => t.pushMouseMovement dx dy buttons dz
  | .read port => if port = I8042.dataPort then t.readData else t
  | .write port value =>
    if port = I8042.dataPort then t.writeData value
    else if port = I8042.statusPort then t.writeCommand value
    else t
  | op => t.withDev (t.dev.step op)

def run (t : Traced) (ops : List KbcOp) : Traced := ops.foldl step t

/-! ## The record is of the controller itself -/

theorem dev_pushMouseBytes (t : Traced) (bytes : List Byte) :
    (t.pushMouseBytes bytes).dev = t.dev.pushMouseBytes bytes := by
  induction bytes generalizing t with
  | nil => rfl
  | cons byte bytes ih =>
    have hstep : (t.pushMouseByte byte).dev = t.dev.pushMouseByte byte := by
      unfold pushMouseByte I8042.pushMouseByte
      split <;> rfl
    have h := ih (t.pushMouseByte byte)
    rw [hstep] at h
    exact h

theorem dev_step (t : Traced) (op : KbcOp) : (t.step op).dev = t.dev.step op := by
  cases op with
  | pushKeyboardScancode scancode =>
    simp only [step, I8042.step, pushKeyboardScancode, I8042.pushKeyboardScancode]
    split <;> rfl
  | pushMouseByte byte =>
    simp only [step, I8042.step, pushMouseByte, I8042.pushMouseByte]
    split <;> rfl
  | pushMouseMovement dx dy buttons dz =>
    simp only [step, I8042.step, pushMouseMovement, I8042.pushMouseMovement]
    split
    · rfl
    · exact dev_pushMouseBytes _ _
  | read port =>
    simp only [step, I8042.step, I8042.read]
    split
    · rfl
    · split <;> rfl
  | write port value =>
    simp only [step, I8042.step, I8042.write]
    split
    · unfold writeData I8042.writeData
      cases hp : t.dev.pending with
      | commandByte => rfl
      | outputPort => rfl
      | auxByte => exact dev_pushMouseBytes _ _
      | none =>
        dsimp only
        split <;> rfl
    · split
      · unfold writeCommand I8042.writeCommand
        cases t.dev.replyOf value <;> rfl
      · rfl
  | clearKeyboardIrq => rfl
  | clearAuxIrq => rfl
  | clearResetRequest => rfl

theorem dev_run (t : Traced) (ops : List KbcOp) : (t.run ops).dev = ops.foldl I8042.step t.dev := by
  induction ops generalizing t with
  | nil => rfl
  | cons op ops ih =>
    have h := ih (t.step op)
    rw [dev_step] at h
    exact h

/-! ## The record shows the controller's queues -/

/-- The record's latch and queues are those of the controller. -/
structure Shows (t : Traced) : Prop where
  latch : t.log.latch.map Prod.snd = t.dev.outputByte
  isAux : ∀ i byte, t.log.latch = some (i, byte) → t.dev.outputIsAux = decide (i = .aux)
  keyboard : t.log.queues .keyboard = t.dev.kbdQueue
  aux : t.log.queues .aux = t.dev.auxQueue
  reply : t.log.queues .reply = []

/-- No byte waits behind an empty output byte. -/
def Drained (s : I8042) : Prop := s.outputByte = none → s.kbdQueue = [] ∧ s.auxQueue = []

/-- What holds between operations. -/
structure Steady (t : Traced) : Prop where
  shows_ : t.Shows
  conserves : t.log.Conserves
  drained : Drained t.dev

/-- The parts of the controller that its streams go through. -/
structure SameStreams (s s' : I8042) : Prop where
  outputByte : s'.outputByte = s.outputByte
  outputIsAux : s'.outputIsAux = s.outputIsAux
  kbdQueue : s'.kbdQueue = s.kbdQueue
  auxQueue : s'.auxQueue = s.auxQueue

variable {t : Traced}

theorem Shows.withDev (h : t.Shows) {s : I8042} (hs : SameStreams t.dev s) :
    (t.withDev s).Shows where
  latch := h.latch.trans hs.outputByte.symm
  isAux i byte hl := hs.outputIsAux.trans (h.isAux i byte hl)
  keyboard := h.keyboard.trans hs.kbdQueue.symm
  aux := h.aux.trans hs.auxQueue.symm
  reply := h.reply

theorem Steady.withDev (h : t.Steady) {s : I8042} (hs : SameStreams t.dev s) :
    (t.withDev s).Steady where
  shows_ := h.shows_.withDev hs
  conserves := h.conserves
  drained hnone := by
    obtain ⟨hk, ha⟩ := h.drained (hs.outputByte.symm.trans hnone)
    exact ⟨hs.kbdQueue.trans hk, hs.auxQueue.trans ha⟩

theorem Shows.enqueueKeyboardByte (h : t.Shows) (byte : Byte) :
    (t.enqueueKeyboardByte byte).Shows := by
  unfold Traced.enqueueKeyboardByte I8042.enqueueKeyboardByte
  split
  · refine ⟨h.latch, h.isAux, ?_, ?_, ?_⟩
    · simp [Latch.enqueue, h.keyboard]
    · simpa [Latch.enqueue] using h.aux
    · simpa [Latch.enqueue] using h.reply
  · exact h

theorem Shows.enqueueAuxByte (h : t.Shows) (byte : Byte) : (t.enqueueAuxByte byte).Shows := by
  unfold Traced.enqueueAuxByte I8042.enqueueAuxByte
  split
  · refine ⟨h.latch, h.isAux, ?_, ?_, ?_⟩
    · simpa [Latch.enqueue] using h.keyboard
    · simp [Latch.enqueue, h.aux]
    · simpa [Latch.enqueue] using h.reply
  · exact h

theorem drained_refillOutputBuffer (s : I8042) : Drained s.refillOutputBuffer := by
  unfold Drained I8042.refillOutputBuffer
  cases ho : s.outputByte with
  | some byte => simp [ho]
  | none =>
    cases hk : s.kbdQueue with
    | cons byte rest => simp
    | nil =>
      cases ha : s.auxQueue with
      | cons byte rest => simp
      | nil => simp [hk, ha]

theorem Shows.refill (h : t.Shows) : t.refill.Shows := by
  have hlatch := h.latch
  unfold Traced.refill I8042.refillOutputBuffer
  cases hl : t.log.latch with
  | some item =>
    have ho : t.dev.outputByte = some item.2 := by rw [← hlatch, hl]; rfl
    have hstay : (t.log.promote .keyboard).promote .aux = t.log := by simp [Latch.promote, hl]
    rw [hstay, ho]
    simpa using h
  | none =>
    have ho : t.dev.outputByte = none := by rw [← hlatch, hl]; rfl
    rw [ho]
    cases hk : t.dev.kbdQueue with
    | cons byte rest =>
      have hq := h.keyboard.trans hk
      refine ⟨?_, ?_, ?_, ?_, ?_⟩ <;> simp [Latch.promote, hl, hq, h.aux, h.reply]
    | nil =>
      have hq := h.keyboard.trans hk
      cases ha : t.dev.auxQueue with
      | cons byte rest =>
        have hqa := h.aux.trans ha
        refine ⟨?_, ?_, ?_, ?_, ?_⟩ <;> simp [Latch.promote, hl, hq, hqa, h.reply]
      | nil =>
        have hqa := h.aux.trans ha
        refine ⟨?_, ?_, ?_, ?_, ?_⟩ <;> simp [Latch.promote, hl, ho, hq, hk, hqa, ha, h.reply]

theorem steady_refill (h : t.Shows) (hc : t.log.Conserves) : t.refill.Steady where
  shows_ := h.refill
  conserves := (hc.promote .keyboard).promote .aux
  drained := drained_refillOutputBuffer t.dev

theorem Steady.pushKeyboardByte (h : t.Steady) (byte : Byte) :
    ((t.enqueueKeyboardByte byte).refill).Steady := by
  refine steady_refill (h.shows_.enqueueKeyboardByte byte) ?_
  unfold Traced.enqueueKeyboardByte
  dsimp only
  split
  · exact h.conserves.enqueue .keyboard byte
  · exact h.conserves

theorem Steady.pushMouseByte (h : t.Steady) (byte : Byte) : (t.pushMouseByte byte).Steady := by
  unfold Traced.pushMouseByte
  split
  · exact h
  · refine steady_refill (h.shows_.enqueueAuxByte byte) ?_
    unfold Traced.enqueueAuxByte
    dsimp only
    split
    · exact h.conserves.enqueue .aux byte
    · exact h.conserves

theorem Steady.pushMouseBytes (h : t.Steady) (bytes : List Byte) :
    (t.pushMouseBytes bytes).Steady := by
  induction bytes generalizing t with
  | nil => exact h
  | cons byte bytes ih => exact ih (h.pushMouseByte byte)

theorem Steady.readData (h : t.Steady) : t.readData.Steady := by
  refine steady_refill ⟨rfl, ?_, h.shows_.keyboard, h.shows_.aux, h.shows_.reply⟩ h.conserves.take
  intro i byte hl
  cases hl

theorem refillOutputBuffer_of_drained {s : I8042} (h : Drained s) : s.refillOutputBuffer = s := by
  unfold I8042.refillOutputBuffer
  cases ho : s.outputByte with
  | some byte => rfl
  | none =>
    obtain ⟨hk, ha⟩ := h ho
    simp [hk, ha]

theorem sameStreams_silentCommand {s : I8042} (h : Drained s) (command : Byte) :
    SameStreams s (s.silentCommand command) := by
  have hrefill : ∀ s' : I8042, SameStreams s s' → SameStreams s s'.refillOutputBuffer := by
    intro s' hs
    have hd : Drained s' := by
      intro hnone
      obtain ⟨hk, ha⟩ := h (hs.outputByte.symm.trans hnone)
      exact ⟨hs.kbdQueue.trans hk, hs.auxQueue.trans ha⟩
    rw [refillOutputBuffer_of_drained hd]
    exact hs
  unfold I8042.silentCommand
  split
  case h_3 => exact hrefill _ ⟨rfl, rfl, rfl, rfl⟩
  case h_5 => exact hrefill _ ⟨rfl, rfl, rfl, rfl⟩
  case h_8 => split <;> exact ⟨rfl, rfl, rfl, rfl⟩
  all_goals exact ⟨rfl, rfl, rfl, rfl⟩

theorem sameStreams_replyOf {s s' : I8042} {command byte : Byte}
    (h : s.replyOf command = some (s', byte)) : SameStreams s s' := by
  unfold I8042.replyOf at h
  split at h
  case h_6 => cases h
  all_goals
    cases h
    exact ⟨rfl, rfl, rfl, rfl⟩

/-- A reply into an empty output byte is like any other byte. -/
theorem Steady.reply (h : t.Steady) {s : I8042} (hs : SameStreams t.dev s)
    (hnone : t.dev.outputByte = none) (byte : Byte) :
    Steady ⟨s.reply byte, t.log.put .reply byte⟩ := by
  have hlatch : t.log.latch = none := by
    have := h.shows_.latch
    rw [hnone, Option.map_eq_none_iff] at this
    exact this
  refine ⟨⟨rfl, ?_, ?_, ?_, h.shows_.reply⟩, h.conserves.put hlatch h.shows_.reply byte, ?_⟩
  · intro i b hl
    cases hl
    rfl
  · exact h.shows_.keyboard.trans hs.kbdQueue.symm
  · exact h.shows_.aux.trans hs.auxQueue.symm
  · intro hfull
    cases hfull

/-! ## Runs -/

/-- A command that replies is written only while no byte is shown. -/
def Fits (s : I8042) : KbcOp → Prop
  | .write port value =>
    port = I8042.statusPort → (s.replyOf value).isSome → s.outputByte = none
  | _ => True

theorem Steady.step (h : t.Steady) (op : KbcOp) (hfits : Fits t.dev op) : (t.step op).Steady := by
  cases op with
  | pushKeyboardScancode scancode =>
    unfold Traced.step pushKeyboardScancode
    dsimp only
    split
    · exact h
    · exact h.pushKeyboardByte scancode
  | pushMouseByte byte => exact h.pushMouseByte byte
  | pushMouseMovement dx dy buttons dz =>
    have hb : (t.withDev (t.dev.withButtons buttons)).Steady := h.withDev ⟨rfl, rfl, rfl, rfl⟩
    unfold Traced.step pushMouseMovement
    dsimp only
    split
    · exact hb
    · exact hb.pushMouseBytes _
  | read port =>
    unfold Traced.step
    dsimp only
    split
    · exact h.readData
    · exact h
  | write port value =>
    have hidle : (t.withDev t.dev.idle).Steady := h.withDev ⟨rfl, rfl, rfl, rfl⟩
    unfold Traced.step
    dsimp only
    split
    · unfold Traced.writeData I8042.writeData
      cases hp : t.dev.pending with
      | commandByte => exact h.withDev ⟨rfl, rfl, rfl, rfl⟩
      | outputPort => exact h.withDev ⟨rfl, rfl, rfl, rfl⟩
      | auxByte =>
        have hm := hidle.withDev (s := { t.dev.idle with
          mouse := (t.dev.idle.mouse.input value).1 }) ⟨rfl, rfl, rfl, rfl⟩
        exact hm.pushMouseBytes _
      | none =>
        dsimp only
        split
        · exact hidle.pushKeyboardByte 0xFA
        · exact hidle
    · split
      next hport =>
        unfold Traced.writeCommand
        cases hr : t.dev.replyOf value with
        | none => exact h.withDev (sameStreams_silentCommand h.drained value)
        | some r =>
          have hnone : t.dev.outputByte = none := hfits hport (by rw [hr]; rfl)
          exact h.reply (sameStreams_replyOf hr) hnone r.2
      next => exact h
  | clearKeyboardIrq => exact h.withDev ⟨rfl, rfl, rfl, rfl⟩
  | clearAuxIrq => exact h.withDev ⟨rfl, rfl, rfl, rfl⟩
  | clearResetRequest => exact h.withDev ⟨rfl, rfl, rfl, rfl⟩

/-- Every operation of a run fits. -/
def AllFit : I8042 → List KbcOp → Prop
  | _, [] => True
  | s, op :: ops => Fits s op ∧ AllFit (s.step op) ops

theorem Steady.run (h : t.Steady) {ops : List KbcOp} (hfits : AllFit t.dev ops) :
    (t.run ops).Steady := by
  induction ops generalizing t with
  | nil => exact h
  | cons op ops ih =>
    refine ih (h.step op hfits.1) ?_
    rw [dev_step]
    exact hfits.2

theorem steady_new : ({} : Traced).Steady :=
  ⟨⟨rfl, (fun _ _ h => nomatch h), rfl, rfl, rfl⟩, Latch.conserves_new, fun _ => ⟨rfl, rfl⟩⟩

/-! ## Reads -/

theorem readData_log (t : Traced) : t.readData.log.accepted = t.log.accepted ∧
    t.readData.log.taken = t.log.taken ++ t.log.latch.toList := by
  have h (m : Latch KbcStream Byte) : ((m.promote .keyboard).promote .aux).accepted = m.accepted ∧
      ((m.promote .keyboard).promote .aux).taken = m.taken := by
    rw [(Latch.promote_log _ _).1, (Latch.promote_log _ _).2, (Latch.promote_log _ _).1,
      (Latch.promote_log _ _).2]
    exact ⟨rfl, rfl⟩
  exact h t.log.take

theorem held_readData (t : Traced) (i : KbcStream) : t.readData.log.held i = t.log.queues i := by
  have h : t.readData.log = (t.log.take.promote .keyboard).promote .aux := rfl
  rw [h, Latch.held_promote, Latch.held_promote]
  rfl

/-- The bytes that are still to be read. -/
def waiting (t : Traced) : Nat :=
  (t.log.held .keyboard).length + (t.log.held .aux).length + (t.log.held .reply).length

theorem Steady.held_eq_nil (h : t.Steady) (hl : t.log.latch = none) (i : KbcStream) :
    t.log.held i = [] := by
  have hnone : t.dev.outputByte = none := by rw [← h.shows_.latch, hl]; rfl
  obtain ⟨hk, ha⟩ := h.drained hnone
  unfold Latch.held
  rw [hl]
  cases i with
  | keyboard => rw [h.shows_.keyboard, hk]; rfl
  | aux => rw [h.shows_.aux, ha]; rfl
  | reply => rw [h.shows_.reply]; rfl

theorem Steady.waiting_readData (h : t.Steady) : t.readData.waiting = t.waiting - 1 := by
  unfold waiting
  simp only [held_readData]
  cases hl : t.log.latch with
  | none =>
    have hempty : ∀ i, t.log.queues i = [] := by
      intro i
      have := h.held_eq_nil hl i
      simpa [Latch.held, hl] using this
    simp [Latch.held, hl, hempty]
  | some item =>
    obtain ⟨i, byte⟩ := item
    cases i <;> simp [Latch.held, hl] <;> omega

theorem step_read (t : Traced) : t.step (.read I8042.dataPort) = t.readData := by
  simp [step]

/-- Reading as often as bytes are waiting returns all of them. -/
theorem Steady.drain (h : t.Steady) {n : Nat} (hn : t.waiting ≤ n) (i : KbcStream) :
    ofStream i (t.run (List.replicate n (.read I8042.dataPort))).log.taken =
      ofStream i t.log.accepted := by
  induction n generalizing t with
  | zero =>
    have hempty : t.log.held i = [] := by
      unfold waiting at hn
      refine List.eq_nil_of_length_eq_zero ?_
      cases i <;> omega
    have := h.conserves i
    rw [hempty, List.append_nil] at this
    exact this.symm
  | succ n ih =>
    have hrun : t.run (List.replicate (n + 1) (.read I8042.dataPort)) =
        t.readData.run (List.replicate n (.read I8042.dataPort)) := by
      rw [List.replicate_succ, ← step_read]
      rfl
    rw [hrun, ih h.readData (by rw [h.waiting_readData]; omega), (readData_log t).1]

/-- What a guest sees of the streams. -/
structure Delivers (t : Traced) : Prop where
  /-- Of each stream, what was accepted is what was returned and what is still held, in order. -/
  conserved : ∀ i, ofStream i t.log.accepted = ofStream i t.log.taken ++ t.log.held i
  /-- A read returns the byte that is shown, and the AUX bit says whether it is the mouse's. -/
  shown : ∀ i byte, t.log.latch = some (i, byte) →
    (t.dev.read I8042.dataPort).1 = byte ∧ t.dev.status.getLsbD 0 = true ∧
      t.dev.status.getLsbD 5 = decide (i = .aux) ∧
      (t.step (.read I8042.dataPort)).log.taken = t.log.taken ++ [(i, byte)]
  /-- When no byte is shown, none is held. -/
  empty : t.log.latch = none → t.dev.status.getLsbD 0 = false ∧ ∀ i, t.log.held i = []
  /-- Reads alone return everything that was accepted. -/
  drains : ∀ i, ofStream i (t.run (List.replicate t.waiting (.read I8042.dataPort))).log.taken =
    ofStream i t.log.accepted

theorem status_bits (s : I8042) : s.status.getLsbD 0 = s.outputByte.isSome ∧
    s.status.getLsbD 5 = (s.outputByte.isSome && s.outputIsAux) := by
  have h0 : (s.statusExtra &&& 0xD0).getLsbD 0 = false := by simp
  have h5 : (s.statusExtra &&& 0xD0).getLsbD 5 = false := by simp
  unfold I8042.status
  rw [BitVec.getLsbD_or, BitVec.getLsbD_or, BitVec.getLsbD_or, BitVec.getLsbD_or, h0, h5]
  cases s.outputByte.isSome <;> cases s.outputIsAux <;>
    cases s.selfTestPassed || s.commandByte.getLsbD 2 <;> decide

theorem Steady.delivers (h : t.Steady) : t.Delivers where
  conserved := h.conserves
  shown i byte hl := by
    have ho : t.dev.outputByte = some byte := by rw [← h.shows_.latch, hl]; rfl
    refine ⟨?_, ?_, ?_, ?_⟩
    · simp [I8042.read, I8042.readData, ho]
    · rw [(status_bits t.dev).1, ho]
      rfl
    · rw [(status_bits t.dev).2, ho, h.shows_.isAux i byte hl]
      rfl
    · rw [step_read, (readData_log t).2, hl]
      rfl
  empty hl := by
    have ho : t.dev.outputByte = none := by rw [← h.shows_.latch, hl]; rfl
    refine ⟨?_, h.held_eq_nil hl⟩
    rw [(status_bits t.dev).1, ho]
    rfl
  drains i := h.drain (Nat.le_refl _) i

end Traced

/-- In a run in which no command that replies is written while a byte is shown, every byte that is
accepted is returned by one read of port 0x60, in the order of its stream, with the AUX bit of its
stream. -/
theorem kbc_bytes_delivered (ops : List KbcOp) (hfits : Traced.AllFit {} ops) :
    (({} : Traced).run ops).dev = ops.foldl I8042.step {} ∧ (({} : Traced).run ops).Delivers :=
  ⟨Traced.dev_run {} ops, (Traced.steady_new.run hfits).delivers⟩

/-- A scancode, a mouse byte, the scancode read, and a self test once the mouse byte is read. -/
def sampleKbcOps : List KbcOp :=
  [.pushKeyboardScancode 0x1E, .pushMouseByte 0x08, .read 0x60, .read 0x60, .write 0x64 0xAA]

theorem sample_bytes_delivered :
    (({} : Traced).run sampleKbcOps).Delivers :=
  (kbc_bytes_delivered sampleKbcOps
    ⟨trivial, trivial, trivial, trivial, fun _ _ => rfl, trivial⟩).2

/-- A self test while a scancode is shown: the reply is read, and the scancode is gone. -/
theorem reply_overwrites_scancode :
    ((({} : I8042).pushKeyboardScancode 0x1E).outputByte = some 0x1E) ∧
      (((({} : I8042).pushKeyboardScancode 0x1E).write 0x64 0xAA).read 0x60).1 = 0x55 ∧
      (((({} : I8042).pushKeyboardScancode 0x1E).write 0x64 0xAA).read 0x60).2.outputByte = none ∧
      (((({} : I8042).pushKeyboardScancode 0x1E).write 0x64 0xAA).read 0x60).2.kbdQueue = [] := by
  decide

end Rax.Devices

import Rax.Lib.Run

/-!
# The 16550 serial port

Host input passes a filter for cursor position reports, waits in an unbounded staging buffer
and is metered into the receiver whenever input arrives or the guest reads a byte. The trace
keeps what the host sent and what the guest read while data was ready; the conservation law
says that the bytes read, those in the receiver and those staged are together the filtered
input in order. It holds along every run without a FIFO reset, a change of the FIFO mode or a
transmission in loopback mode, as long as the receiver has room for what is metered into it.
-/

namespace Rax.Devices

/-- Bits of the registers that the model looks at. -/
def ierRda : UInt8 := 0x01
def ierThre : UInt8 := 0x02
def ierRls : UInt8 := 0x04
def ierMs : UInt8 := 0x08
def ierMask : UInt8 := 0x0F
def lcrDlab : UInt8 := 0x80
def mcrOut2 : UInt8 := 0x08
def mcrLoop : UInt8 := 0x10
def mcrMask : UInt8 := 0x1F
def lsrDr : UInt8 := 0x01
def lsrOe : UInt8 := 0x02
def lsrPe : UInt8 := 0x04
def lsrFe : UInt8 := 0x08
def lsrBi : UInt8 := 0x10
def lsrThre : UInt8 := 0x20
def lsrTemt : UInt8 := 0x40
def lsrFifoErr : UInt8 := 0x80

def fifoSize : Nat := 16

/-- `value & mask != 0`. -/
def anyBit (value mask : UInt8) : Bool := value &&& mask != 0

structure FifoEntry where
  data : UInt8
  parityError : Bool := false
  framingError : Bool := false
  breakIndicator : Bool := false
  deriving DecidableEq

/-- Filter state for `ESC [ n ; n R` in the input. -/
inductive CprFilterState
  | normal
  | gotEsc
  | gotBracket
  | inNumber
  deriving DecidableEq

/-- Filter state for `ESC [ 6 n` in the output. -/
inductive CpqFilterState
  | normal
  | buffering (buf : List UInt8)
  deriving DecidableEq

/-- The port. `output` is what it has sent to the host's terminal. -/
structure Serial16550 where
  ier : UInt8 := 0
  lcr : UInt8 := 0
  mcr : UInt8 := 0
  scr : UInt8 := 0
  fcr : UInt8 := 0
  dll : UInt8 := 0
  dlm : UInt8 := 0
  fifoEnabled : Bool := false
  rxFifo : List FifoEntry := []
  txFifo : List UInt8 := []
  rxTrigger : Nat := 1
  overrunError : Bool := false
  msr : UInt8 := 0
  msrDelta : UInt8 := 0
  threInterrupt : Bool := false
  timeoutCounter : Nat := 0
  timeoutActive : Bool := false
  inputBuffer : List UInt8 := []
  cprState : CprFilterState := .normal
  cpqState : CpqFilterState := .normal
  output : List UInt8 := []
  deriving DecidableEq

def isDigit (byte : UInt8) : Bool := 0x30 ≤ byte && byte ≤ 0x39

/-- One byte of host input: the next filter state and the bytes it stages. -/
def filterByte : CprFilterState → UInt8 → CprFilterState × List UInt8
  | .normal, byte => if byte = 0x1b then (.gotEsc, []) else (.normal, [byte])
  | .gotEsc, byte => if byte = 0x5b then (.gotBracket, []) else (.normal, [0x1b, byte])
  | .gotBracket, byte =>
    if isDigit byte then (.inNumber, []) else (.normal, [0x1b, 0x5b, byte])
  | .inNumber, byte =>
    if isDigit byte || byte == 0x3b then (.inNumber, [])
    else if byte = 0x52 then (.normal, [])
    else (.normal, [byte])

/-- The filter over a run of input. -/
def filterInput : CprFilterState → List UInt8 → CprFilterState × List UInt8
  | state, [] => (state, [])
  | state, byte :: bytes =>
    let (next, staged) := filterByte state byte
    let (last, rest) := filterInput next bytes
    (last, staged ++ rest)

namespace Serial16550

/-- Take a byte into the receiver: a FIFO keeps what it has, a single buffer the new byte. -/
def receiveByteWithErrors (u : Serial16550) (entry : FifoEntry) : Serial16550 :=
  let u :=
    if u.fifoEnabled then
      if fifoSize ≤ u.rxFifo.length then { u with overrunError := true }
      else { u with rxFifo := u.rxFifo ++ [entry] }
    else if u.rxFifo = [] then { u with rxFifo := [entry] }
    else { u with overrunError := true, rxFifo := [entry] }
  { u with timeoutCounter := 0, timeoutActive := false }

def receiveByte (u : Serial16550) (data : UInt8) : Serial16550 :=
  u.receiveByteWithErrors { data := data }

/-- The metering loop, over what is staged. -/
def pumpFrom (u : Serial16550) : List UInt8 → Serial16550
  | [] => { u with inputBuffer := [] }
  | byte :: staged =>
    if u.rxFifo.length < fifoSize then pumpFrom (u.receiveByte byte) staged
    else { u with inputBuffer := byte :: staged }

def pumpInput (u : Serial16550) : Serial16550 := u.pumpFrom u.inputBuffer

def queueInput (u : Serial16550) (bytes : List UInt8) : Serial16550 :=
  let (state, staged) := filterInput u.cprState bytes
  pumpInput { u with cprState := state, inputBuffer := u.inputBuffer ++ staged }

/-- The line status register. -/
def computeLsr (u : Serial16550) : UInt8 :=
  let front (p : FifoEntry → Bool) : Bool := (u.rxFifo.head?.map p).getD false
  let bit (b : Bool) (mask : UInt8) : UInt8 := if b then mask else 0
  let thre := if u.fifoEnabled then u.txFifo.isEmpty else true
  bit (!u.rxFifo.isEmpty) lsrDr ||| bit u.overrunError lsrOe |||
    bit (front (·.parityError)) lsrPe ||| bit (front (·.framingError)) lsrFe |||
    bit (front (·.breakIndicator)) lsrBi ||| bit thre lsrThre ||| bit thre lsrTemt |||
    bit (u.fifoEnabled && u.rxFifo.any fun e =>
      e.parityError || e.framingError || e.breakIndicator) lsrFifoErr

/-- The highest-priority interrupt, as its identification code. -/
def getPendingInterrupt (u : Serial16550) : Option UInt8 :=
  let triggerMet := if u.fifoEnabled then u.rxTrigger ≤ u.rxFifo.length else !u.rxFifo.isEmpty
  if anyBit u.ier ierRls && anyBit u.computeLsr (lsrOe ||| lsrPe ||| lsrFe ||| lsrBi) then
    some 0x06
  else if anyBit u.ier ierRda && triggerMet then some 0x04
  else if anyBit u.ier ierRda && u.fifoEnabled && !u.rxFifo.isEmpty then some 0x0C
  else if anyBit u.ier ierThre && u.threInterrupt then some 0x02
  else if anyBit u.ier ierMs && anyBit u.msrDelta 0x0F then some 0x00
  else none

def hasPendingInterrupt (u : Serial16550) : Bool :=
  anyBit u.mcr mcrOut2 && u.getPendingInterrupt.isSome

/-- New modem status lines, with the changes recorded in the delta bits. -/
def updateModemStatus (u : Serial16550) (newStatus : UInt8) : Serial16550 :=
  let old := u.msr &&& 0xF0
  let new := newStatus &&& 0xF0
  let delta (b : Bool) (mask : UInt8) : UInt8 := if b then mask else 0
  { u with
    msrDelta := u.msrDelta ||| delta (anyBit (old ^^^ new) 0x10) 0x01 |||
      delta (anyBit (old ^^^ new) 0x20) 0x02 |||
      delta (anyBit old 0x40 && !anyBit new 0x40) 0x04 |||
      delta (anyBit (old ^^^ new) 0x80) 0x08
    msr := (u.msr &&& 0x0F) ||| new }

/-- Trigger level selected by the two top bits of the FIFO control register. -/
def triggerLevel (value : UInt8) : Nat :=
  match ((value &&& 0xC0) >>> 6).toNat with
  | 0 => 1
  | 1 => 4
  | 2 => 8
  | _ => 14

def writeFcr (u : Serial16550) (value : UInt8) : Serial16550 :=
  let enabled := anyBit value 0x01
  let u := { u with fcr := value }
  let u :=
    if enabled = u.fifoEnabled then u
    else { u with rxFifo := [], txFifo := [], fifoEnabled := enabled }
  let u :=
    if anyBit value 0x02 then
      { u with rxFifo := [], overrunError := false, timeoutCounter := 0, timeoutActive := false }
    else u
  let u := if anyBit value 0x04 then { u with txFifo := [] } else u
  { u with rxTrigger := triggerLevel value }

/-- Output filter: nothing while a prefix of the query is pending. -/
def filterCpq (u : Serial16550) (byte : UInt8) : Option (List UInt8) × Serial16550 :=
  match u.cpqState with
  | .normal =>
    if byte = 0x1b then (none, { u with cpqState := .buffering [byte] })
    else (some [byte], { u with cpqState := .normal })
  | .buffering buf =>
    let buf := buf ++ [byte]
    if buf = [0x1b] ∨ buf = [0x1b, 0x5b] ∨ buf = [0x1b, 0x5b, 0x36] then
      (none, { u with cpqState := .buffering buf })
    else if buf = [0x1b, 0x5b, 0x36, 0x6e] then (none, { u with cpqState := .normal })
    else (some buf, { u with cpqState := .normal })

/-- Send a byte: to the receiver in loopback mode, else to the terminal. -/
def transmitByte (u : Serial16550) (data : UInt8) : Serial16550 :=
  let u :=
    if anyBit u.mcr mcrLoop then u.receiveByte data
    else
      let (bytes, u) := u.filterCpq data
      { u with output := u.output ++ bytes.getD [] }
  { u with threInterrupt := true }

def writeMcr (u : Serial16550) (value : UInt8) : Serial16550 :=
  let oldMcr := u.mcr
  let u := { u with mcr := value &&& mcrMask }
  let line (mask status : UInt8) : UInt8 := if anyBit u.mcr mask then status else 0
  if anyBit u.mcr mcrLoop then
    u.updateModemStatus (line 0x01 0x20 ||| line 0x02 0x10 ||| line 0x04 0x40 ||| line 0x08 0x80)
  else if anyBit oldMcr mcrLoop then u.updateModemStatus 0
  else u

def dlab (u : Serial16550) : Bool := anyBit u.lcr lcrDlab

def writeReg (u : Serial16550) (offset : Nat) (value : UInt8) : Serial16550 :=
  match offset with
  | 0 =>
    if u.dlab then { u with dll := value }
    else { u with threInterrupt := false }.transmitByte value
  | 1 =>
    if u.dlab then { u with dlm := value }
    else
      let u := { u with ier := value &&& ierMask }
      if anyBit u.ier ierThre && anyBit u.computeLsr lsrThre then { u with threInterrupt := true }
      else u
  | 2 => u.writeFcr value
  | 3 => { u with lcr := value }
  | 4 => u.writeMcr value
  | 7 => { u with scr := value }
  | _ => u

def readReg (u : Serial16550) (offset : Nat) : UInt8 × Serial16550 :=
  match offset with
  | 0 =>
    if u.dlab then (u.dll, u)
    else
      ((u.rxFifo.head?.map (·.data)).getD 0,
        pumpInput { u with
          timeoutCounter := 0, timeoutActive := false, rxFifo := u.rxFifo.tail })
  | 1 => (if u.dlab then u.dlm else u.ier, u)
  | 2 =>
    let interrupt := u.getPendingInterrupt
    let iir := interrupt.getD 0x01 ||| (if u.fifoEnabled then 0xC0 else 0)
    (iir, if interrupt = some 0x02 then { u with threInterrupt := false } else u)
  | 3 => (u.lcr, u)
  | 4 => (u.mcr, u)
  | 5 => (u.computeLsr, { u with overrunError := false })
  | 6 => ((u.msr &&& 0xF0) ||| u.msrDelta, { u with msrDelta := 0 })
  | 7 => (u.scr, u)
  | _ => (0, u)

end Serial16550

/-- Host input, or a register access of the guest. -/
inductive SerialEvent
  | input (bytes : List UInt8)
  | read (offset : Nat)
  | write (offset : Nat) (value : UInt8)

/-- The port with what the host has sent and what the guest has read from the receiver while
data was ready. -/
structure SerialTrace where
  uart : Serial16550 := {}
  host : List UInt8 := []
  taken : List UInt8 := []

namespace SerialTrace

def step (t : SerialTrace) : SerialEvent → SerialTrace
  | .input bytes => { t with uart := t.uart.queueInput bytes, host := t.host ++ bytes }
  | .read offset =>
    let ready := offset = 0 ∧ t.uart.dlab = false ∧ t.uart.rxFifo ≠ []
    { t with
      uart := (t.uart.readReg offset).2
      taken := if ready then t.taken ++ [(t.uart.readReg offset).1] else t.taken }
  | .write offset value => { t with uart := t.uart.writeReg offset value }

/-- No byte is lost, duplicated or reordered. -/
def Conserved (t : SerialTrace) : Prop :=
  t.taken ++ (t.uart.rxFifo.map (·.data) ++ t.uart.inputBuffer) =
    (filterInput .normal t.host).2

end SerialTrace

namespace Serial16550

variable {u : Serial16550}

/-- The receiver has room for that many bytes beyond its capacity check: the FIFO meters by
its own size, the single buffer must be empty. -/
def Room (u : Serial16550) (n : Nat) : Prop :=
  u.fifoEnabled = true ∨ u.rxFifo.length + n ≤ 1

/-- Events that keep every byte: no reset of the receiver FIFO, no change of the FIFO mode,
no transmission into the own receiver, and room for what is metered. -/
def Keeps (u : Serial16550) : SerialEvent → Prop
  | .input bytes => u.Room (u.inputBuffer.length + (filterInput u.cprState bytes).2.length)
  | .read offset => offset = 0 → u.dlab = false →
      Room { u with rxFifo := u.rxFifo.tail } u.inputBuffer.length
  | .write offset value =>
    (offset = 0 → u.dlab = false → anyBit u.mcr mcrLoop = false) ∧
      (offset = 2 → anyBit value 0x01 = u.fifoEnabled ∧ anyBit value 0x02 = false)

theorem receiveByte_rxFifo {n : Nat} (hroom : u.Room (n + 1)) (hlen : u.rxFifo.length < fifoSize)
    (data : UInt8) : (u.receiveByte data).rxFifo = u.rxFifo ++ [{ data := data }] := by
  rcases hroom with hfifo | hempty
  · simp [receiveByte, receiveByteWithErrors, hfifo, Nat.not_le.mpr hlen]
  · have hnil : u.rxFifo = [] := List.eq_nil_of_length_eq_zero (by omega)
    cases hfifo : u.fifoEnabled <;>
      simp [receiveByte, receiveByteWithErrors, hfifo, hnil, fifoSize]

theorem receiveByte_fifoEnabled (u : Serial16550) (data : UInt8) :
    (u.receiveByte data).fifoEnabled = u.fifoEnabled := by
  simp only [receiveByte, receiveByteWithErrors]
  split <;> split <;> rfl

theorem receiveByte_cprState (u : Serial16550) (data : UInt8) :
    (u.receiveByte data).cprState = u.cprState := by
  simp only [receiveByte, receiveByteWithErrors]
  split <;> split <;> rfl

/-- Metering moves bytes from the staging buffer to the end of the receiver. -/
theorem pumpFrom_bytes {staged : List UInt8} (hroom : u.Room staged.length) :
    (u.pumpFrom staged).rxFifo.map (·.data) ++ (u.pumpFrom staged).inputBuffer =
      u.rxFifo.map (·.data) ++ staged := by
  induction staged generalizing u with
  | nil => simp [pumpFrom]
  | cons byte staged ih =>
    simp only [pumpFrom]
    split
    case isTrue hlen =>
      have hrx := receiveByte_rxFifo hroom hlen byte
      have hroom' : (u.receiveByte byte).Room staged.length := by
        rcases hroom with hfifo | hempty
        · exact .inl ((u.receiveByte_fifoEnabled byte).trans hfifo)
        · right
          rw [hrx, List.length_append]
          simp only [List.length_cons] at hempty
          simp only [List.length_cons, List.length_nil]
          omega
      rw [ih hroom', hrx]
      simp
    case isFalse => rfl

theorem pumpFrom_cprState (u : Serial16550) (staged : List UInt8) :
    (u.pumpFrom staged).cprState = u.cprState := by
  induction staged generalizing u with
  | nil => rfl
  | cons byte staged ih =>
    simp only [pumpFrom]
    split
    · rw [ih, receiveByte_cprState]
    · rfl

/-- The part of the port that host input is in. -/
structure SameInput (u v : Serial16550) : Prop where
  rxFifo : v.rxFifo = u.rxFifo
  inputBuffer : v.inputBuffer = u.inputBuffer
  cprState : v.cprState = u.cprState

theorem sameInput_filterCpq (u : Serial16550) (byte : UInt8) :
    u.SameInput (u.filterCpq byte).2 := by
  unfold filterCpq
  split
  · split <;> exact ⟨rfl, rfl, rfl⟩
  · simp only
    split
    · exact ⟨rfl, rfl, rfl⟩
    · split <;> exact ⟨rfl, rfl, rfl⟩

theorem sameInput_transmitByte (hloop : anyBit u.mcr mcrLoop = false) (data : UInt8) :
    u.SameInput (u.transmitByte data) := by
  have h := u.sameInput_filterCpq data
  simp only [transmitByte, hloop, Bool.false_eq_true, if_false]
  exact ⟨h.rxFifo, h.inputBuffer, h.cprState⟩

theorem sameInput_writeFcr {value : UInt8} (hmode : anyBit value 0x01 = u.fifoEnabled)
    (hreset : anyBit value 0x02 = false) : u.SameInput (u.writeFcr value) := by
  simp only [writeFcr, hmode, hreset, if_true, Bool.false_eq_true, if_false]
  split <;> exact ⟨rfl, rfl, rfl⟩

theorem sameInput_writeMcr (u : Serial16550) (value : UInt8) :
    u.SameInput (u.writeMcr value) := by
  unfold writeMcr
  simp only
  split
  · exact ⟨rfl, rfl, rfl⟩
  · split <;> exact ⟨rfl, rfl, rfl⟩

/-- A register write that is kept within the conditions does not touch host input. -/
theorem sameInput_writeReg {offset : Nat} {value : UInt8} (h : u.Keeps (.write offset value)) :
    u.SameInput (u.writeReg offset value) := by
  obtain ⟨hloop, hfcr⟩ := h
  unfold writeReg
  split
  · cases hdlab : u.dlab with
    | true => exact ⟨rfl, rfl, rfl⟩
    | false =>
      have h := sameInput_transmitByte (u := { u with threInterrupt := false })
        (hloop rfl hdlab) value
      exact ⟨h.rxFifo, h.inputBuffer, h.cprState⟩
  · split
    · exact ⟨rfl, rfl, rfl⟩
    · simp only
      split <;> exact ⟨rfl, rfl, rfl⟩
  · exact sameInput_writeFcr (hfcr rfl).1 (hfcr rfl).2
  · exact ⟨rfl, rfl, rfl⟩
  · exact u.sameInput_writeMcr value
  · exact ⟨rfl, rfl, rfl⟩
  · exact ⟨rfl, rfl, rfl⟩

/-- Reads of other registers, and of the divisor latch, do not touch host input. -/
theorem sameInput_readReg {offset : Nat} (h : ¬ (offset = 0 ∧ u.dlab = false)) :
    u.SameInput (u.readReg offset).2 := by
  unfold readReg
  split
  · have hdlab : u.dlab = true := by simpa using h
    simp only [hdlab, if_true]
    exact ⟨rfl, rfl, rfl⟩
  · exact ⟨rfl, rfl, rfl⟩
  · simp only
    split <;> exact ⟨rfl, rfl, rfl⟩
  all_goals exact ⟨rfl, rfl, rfl⟩

end Serial16550

theorem filterInput_append (state : CprFilterState) (a b : List UInt8) :
    filterInput state (a ++ b) =
      ((filterInput (filterInput state a).1 b).1,
        (filterInput state a).2 ++ (filterInput (filterInput state a).1 b).2) := by
  induction a generalizing state with
  | nil => rfl
  | cons byte a ih => simp [filterInput, ih]

namespace SerialTrace

variable {t : SerialTrace}

/-- Conservation, with the filter in the state that the whole input left it in. -/
structure Inv (t : SerialTrace) : Prop where
  conserved : t.Conserved
  cprState : t.uart.cprState = (filterInput .normal t.host).1

theorem Inv.of_sameInput {v : Serial16550} (h : t.Inv) (hv : t.uart.SameInput v) :
    Inv { t with uart := v } := by
  constructor
  · simpa [Conserved, hv.rxFifo, hv.inputBuffer] using h.conserved
  · exact hv.cprState.trans h.cprState

theorem Inv.input {bytes : List UInt8} (h : t.Inv) (hkeeps : t.uart.Keeps (.input bytes)) :
    (t.step (.input bytes)).Inv := by
  have hroom : Serial16550.Room
      { t.uart with
        cprState := (filterInput t.uart.cprState bytes).1
        inputBuffer := t.uart.inputBuffer ++ (filterInput t.uart.cprState bytes).2 }
      (t.uart.inputBuffer ++ (filterInput t.uart.cprState bytes).2).length := by
    rw [List.length_append]
    exact hkeeps
  constructor
  · have hbytes := Serial16550.pumpFrom_bytes hroom
    have hold := h.conserved
    simp only [Conserved, step, Serial16550.queueInput, Serial16550.pumpInput,
      filterInput_append, ← h.cprState, hbytes] at hold ⊢
    rw [← hold]
    simp
  · simp only [step, Serial16550.queueInput, Serial16550.pumpInput,
      Serial16550.pumpFrom_cprState, filterInput_append, h.cprState]

theorem Inv.read {offset : Nat} (h : t.Inv) (hkeeps : t.uart.Keeps (.read offset)) :
    (t.step (.read offset)).Inv := by
  by_cases hrbr : offset = 0 ∧ t.uart.dlab = false
  · obtain ⟨rfl, hdlab⟩ := hrbr
    have hbytes := Serial16550.pumpFrom_bytes (u :=
      { t.uart with timeoutCounter := 0, timeoutActive := false, rxFifo := t.uart.rxFifo.tail })
      (hkeeps rfl hdlab)
    have hold := h.conserved
    constructor
    · simp only [Conserved, step, Serial16550.readReg, hdlab, Bool.false_eq_true, if_false,
        Serial16550.pumpInput, hbytes] at hold ⊢
      rw [← hold]
      cases hrx : t.uart.rxFifo with
      | nil => simp
      | cons entry rest => simp
    · simpa only [step, Serial16550.readReg, hdlab, Bool.false_eq_true, if_false,
        Serial16550.pumpInput, Serial16550.pumpFrom_cprState] using h.cprState
  · have hnot : ¬ (offset = 0 ∧ t.uart.dlab = false ∧ t.uart.rxFifo ≠ []) :=
      fun hready => hrbr ⟨hready.1, hready.2.1⟩
    have hsame := h.of_sameInput (Serial16550.sameInput_readReg hrbr)
    simpa only [step, if_neg hnot] using hsame

theorem Inv.step {e : SerialEvent} (h : t.Inv) (hkeeps : t.uart.Keeps e) : (t.step e).Inv := by
  cases e with
  | input bytes => exact h.input hkeeps
  | read offset => exact h.read hkeeps
  | write offset value => exact h.of_sameInput (Serial16550.sameInput_writeReg hkeeps)

/-- A port in either mode before any host input. -/
structure Fresh (t : SerialTrace) : Prop where
  host : t.host = []
  taken : t.taken = []
  rxFifo : t.uart.rxFifo = []
  inputBuffer : t.uart.inputBuffer = []
  cprState : t.uart.cprState = .normal

theorem Inv.of_fresh (h : t.Fresh) : t.Inv := by
  constructor
  · simp [Conserved, h.host, h.taken, h.rxFifo, h.inputBuffer, filterInput]
  · rw [h.cprState, h.host, filterInput]

/-- Along every run whose events keep every byte, host input is conserved. -/
theorem host_input_conserved
    (h : Reachable Fresh (fun t e t' => t.uart.Keeps e ∧ t' = t.step e) t) : t.Conserved := by
  have hinv : t.Inv := by
    refine h.invariant (fun t ht => .of_fresh ht) ?_
    rintro t e t' hinv ⟨hkeeps, rfl⟩
    exact hinv.step hkeeps
  exact hinv.conserved

/-- Two bytes into an enabled FIFO, one of them read. -/
def fifoRun : List SerialEvent := [.input [0x61, 0x62], .read 0]

theorem host_input_conserved_fifo :
    (fifoRun.foldl SerialTrace.step { uart := { fifoEnabled := true } }).taken = [0x61] ∧
      (fifoRun.foldl SerialTrace.step { uart := { fifoEnabled := true } }).Conserved := by
  refine ⟨by decide, host_input_conserved ?_⟩
  change Reachable _ _ ((({ uart := { fifoEnabled := true } } : SerialTrace).step
    (.input [0x61, 0x62])).step (.read 0))
  refine .step (.step (.init ⟨rfl, rfl, rfl, rfl, rfl⟩) ⟨?_, rfl⟩) ⟨?_, rfl⟩
  · exact Or.inl rfl
  · intro _ _
    exact .inl (by decide)

/-- Loopback mode, a byte sent, and the byte read back. -/
def loopbackRun : List SerialEvent := [.write 4 0x10, .write 0 0x41, .read 0]

/-- A byte that the guest sends to itself is read like input, but the host never sent it. -/
theorem loopback_byte_is_read :
    (loopbackRun.foldl SerialTrace.step {}).taken = [0x41] ∧
      ¬ (loopbackRun.foldl SerialTrace.step {}).Conserved := by
  unfold Conserved
  decide

end SerialTrace

end Rax.Devices

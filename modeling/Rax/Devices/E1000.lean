import Rax.Lib.ByteStore
import Rax.Lib.Bytes

/-!
# The 82540EM network controller

The register file with the EEPROM, the transmit ring and the receive ring. Guest memory is a
parameter of the functions that use it. Sums of addresses and indices wrap, as in a release build.
The walk of the transmit ring also returns the descriptors it handled, in order, for the statements
about it.
-/

namespace Rax.Devices

namespace E1000

def descSize : Nat := 16
def maxFrame : Nat := 16384
def eepromWords : Nat := 64
def mtaLen : Nat := 128

/-- The address of a descriptor. -/
def descAddr (base : Word) (index : Reg) : Word := base + BitVec.ofNat 64 (index.toNat * descSize)

end E1000

open E1000

structure E1000 where
  ctrl : Reg := 0
  status : Reg := 3
  eeprom : List (BitVec 16)
  eecd : Reg := 0
  eerd : Reg := 0
  eeShift : BitVec 16 := 0
  eeCount : Nat := 0
  eeReading : Bool := false
  eeDataout : BitVec 16 := 0
  eeDataoutCount : Nat := 0
  eePrevSk : Bool := false
  eeDo : Bool := false
  icr : Reg := 0
  ims : Reg := 0
  rctl : Reg := 0
  rdbal : Reg := 0
  rdbah : Reg := 0
  rdlen : Reg := 0
  rdh : Reg := 0
  rdt : Reg := 0
  tctl : Reg := 0
  tdbal : Reg := 0
  tdbah : Reg := 0
  tdlen : Reg := 0
  tdh : Reg := 0
  tdt : Reg := 0
  ral0 : Reg
  rah0 : Reg
  mta : List Reg := List.replicate mtaLen 0
  txPartial : List Byte := []
  txQueue : List (List Byte) := []
  deriving DecidableEq

namespace E1000

/-- A word of the EEPROM from two bytes of the address. -/
def macWord (lo hi : Byte) : BitVec 16 := lo.setWidth 16 ||| (hi.setWidth 16 <<< 8)

/-- The address, the device id, and a last word that makes the sum 0xBABA. -/
def eepromImage (m0 m1 m2 m3 m4 m5 : Byte) : List (BitVec 16) :=
  let words := [macWord m0 m1, macWord m2 m3, macWord m4 m5, 0x100E] ++ List.replicate 59 0
  words ++ [0xBABA - words.foldl (· + ·) 0]

def new (m0 m1 m2 m3 m4 m5 : Byte) : E1000 where
  eeprom := eepromImage m0 m1 m2 m3 m4 m5
  ral0 := Reg.ofBytes m0 m1 m2 m3
  rah0 := m4.setWidth 32 ||| (m5.setWidth 32 <<< 8) ||| (1 <<< 31)

def rxEnabled (s : E1000) : Bool := s.rctl.getLsbD 1

def txEnabled (s : E1000) : Bool := s.tctl.getLsbD 1

/-- The oldest frame that was sent. -/
def takeTxFrame (s : E1000) : Option (List Byte) × E1000 :=
  match s.txQueue with
  | [] => (none, s)
  | frame :: frames => (some frame, { s with txQueue := frames })

def interruptPending (s : E1000) : Bool := s.icr &&& s.ims != 0

def rxBase (s : E1000) : Word := (s.rdbah.setWidth 64 <<< 32) ||| s.rdbal.setWidth 64

def txBase (s : E1000) : Word := (s.tdbah.setWidth 64 <<< 32) ||| s.tdbal.setWidth 64

def rxRingCount (s : E1000) : Reg := s.rdlen / 16

def txRingCount (s : E1000) : Reg := s.tdlen / 16

/-! ## EEPROM -/

/-- Shift out the next data bit, high one first. -/
def shiftOut (s : E1000) : E1000 :=
  let bit := s.eeDataout.getLsbD (15 - s.eeDataoutCount)
  if 16 ≤ s.eeDataoutCount + 1 then
    { s with eeDo := bit, eeDataoutCount := s.eeDataoutCount + 1, eeReading := false, eeCount := 0,
             eeShift := 0 }
  else { s with eeDo := bit, eeDataoutCount := s.eeDataoutCount + 1 }

/-- Shift in a command bit; nine of them are a command, of which only reads are known. -/
def shiftIn (s : E1000) (di : Bool) : E1000 :=
  let shift : BitVec 16 := (s.eeShift <<< 1) ||| (if di then 1 else 0)
  if 9 ≤ s.eeCount + 1 then
    if (shift >>> 6) &&& 7 = 6 then
      { s with eeShift := shift, eeCount := s.eeCount + 1, eeDo := false,
               eeDataout := s.eeprom.getD (shift &&& 63).toNat 0, eeDataoutCount := 0,
               eeReading := true }
    else { s with eeShift := 0, eeCount := 0, eeDo := false }
  else { s with eeShift := shift, eeCount := s.eeCount + 1, eeDo := false }

/-- Deselecting ends the command; with the chip selected, a rising clock moves a bit. -/
def clockEeprom (s : E1000) (value : Reg) : E1000 :=
  if value.getLsbD 1 = false then
    { s with eeShift := 0, eeCount := 0, eeReading := false, eeDataoutCount := 0, eeDo := false }
  else if value.getLsbD 0 && !s.eePrevSk then
    if s.eeReading then s.shiftOut else s.shiftIn (value.getLsbD 2)
  else s

/-- Access is granted whenever it is requested. -/
def eecdWrite (s : E1000) (value : Reg) : E1000 :=
  let stored : Reg := if value.getLsbD 6 then value ||| 0x80 else value &&& ~~~0x80#32
  { s.clockEeprom value with eePrevSk := value.getLsbD 0, eecd := stored &&& ~~~8#32 }

/-- A read is done at once. -/
def startEepromRead (s : E1000) (value : Reg) : E1000 :=
  if value.getLsbD 0 = false then { s with eerd := value &&& ~~~0x10#32 }
  else
    let data := s.eeprom.getD ((value >>> 8) &&& 0xFF).toNat 0
    { s with eerd := (value &&& ~~~1#32) ||| 0x10 ||| (data.setWidth 32 <<< 16) }

/-! ## Registers -/

def raiseInterrupt (s : E1000) (cause : Reg) : E1000 := { s with icr := s.icr ||| cause }

/-- A register as it reads, without the effect of reading it. -/
def peekReg (s : E1000) (offset : Nat) : Reg :=
  if 0x5200 ≤ offset ∧ offset < 0x5400 then s.mta.getD ((offset - 0x5200) / 4) 0
  else
    match offset with
    | 0x0000 => s.ctrl
    | 0x0008 => s.status
    | 0x0010 => (s.eecd &&& ~~~8#32) ||| (if s.eeDo then (8 : Reg) else 0)
    | 0x0014 => s.eerd
    | 0x00C0 => s.icr
    | 0x00C8 | 0x00D0 | 0x00D8 => s.ims
    | 0x0100 => s.rctl
    | 0x0400 => s.tctl
    | 0x2800 => s.rdbal
    | 0x2804 => s.rdbah
    | 0x2808 => s.rdlen
    | 0x2810 => s.rdh
    | 0x2818 => s.rdt
    | 0x3800 => s.tdbal
    | 0x3804 => s.tdbah
    | 0x3808 => s.tdlen
    | 0x3810 => s.tdh
    | 0x3818 => s.tdt
    | 0x5400 => s.ral0
    | 0x5404 => s.rah0
    | _ => 0

/-- Reading ICR clears it. -/
def readReg (s : E1000) (offset : Nat) : Reg × E1000 :=
  (s.peekReg offset, if offset = 0x00C0 then { s with icr := 0 } else s)

def writeReg (s : E1000) (offset : Nat) (value : Reg) : E1000 :=
  if 0x5200 ≤ offset ∧ offset < 0x5400 then
    { s with mta := s.mta.set ((offset - 0x5200) / 4) value }
  else
    match offset with
    | 0x0000 => { s with ctrl := value }
    | 0x0010 => s.eecdWrite value
    | 0x0014 => s.startEepromRead value
    | 0x00C0 => { s with icr := s.icr &&& ~~~value }
    | 0x00C8 => { s with icr := s.icr ||| value }
    | 0x00D0 => { s with ims := s.ims ||| value }
    | 0x00D8 => { s with ims := s.ims &&& ~~~value }
    | 0x0100 => { s with rctl := value }
    | 0x0400 => { s with tctl := value }
    | 0x2800 => { s with rdbal := value &&& ~~~0xF#32 }
    | 0x2804 => { s with rdbah := value }
    | 0x2808 => { s with rdlen := value &&& 0x000FFF80 }
    | 0x2810 => { s with rdh := value }
    | 0x2818 => { s with rdt := value }
    | 0x3800 => { s with tdbal := value &&& ~~~0xF#32 }
    | 0x3804 => { s with tdbah := value }
    | 0x3808 => { s with tdlen := value &&& 0x000FFF80 }
    | 0x3810 => { s with tdh := value }
    | 0x3818 => { s with tdt := value }
    | 0x5400 => { s with ral0 := value }
    | 0x5404 => { s with rah0 := value }
    | _ => s

/-! ## The bus interface -/

def alignedOffset (addr : Word) : Nat := (addr &&& ~~~3#64).toNat

def byteInReg (addr : Word) : Nat := (addr &&& 3).toNat

def read (s : E1000) (addr : Word) (n : Nat) : List Byte × E1000 :=
  let (value, s) := s.readReg (alignedOffset addr)
  (value.takeBytes (byteInReg addr) n, s)

/-- Bytes that are not written are taken from what the register reads as. -/
def write (s : E1000) (addr : Word) (data : List Byte) : E1000 :=
  s.writeReg (alignedOffset addr) ((s.peekReg (alignedOffset addr)).putBytes (byteInReg addr) data)

/-! ## Transmit -/

/-- A descriptor that carries data: where it is, how long, and whether the frame ends with it.
Context descriptors, and those of unknown type, carry none. -/
structure TxBuffer where
  addr : Word
  len : Nat
  eop : Bool
  deriving DecidableEq

def txCmd (raw : List Byte) : Byte := raw.getD 11 0

/-- The little-endian dword at a position of a descriptor. -/
def txDword (raw : List Byte) (pos : Nat) : Reg :=
  (Word.fromLeBytes ((raw.drop pos).take 4)).setWidth 32

def txAddr (raw : List Byte) : Word := Word.fromLeBytes (raw.take 8)

/-- Legacy descriptors have 16 bits of length; extended ones have a type, and 20 bits. -/
def txBuffer (raw : List Byte) : Option TxBuffer :=
  if (txCmd raw).getLsbD 5 then
    match (raw.getD 10 0 >>> 4).toNat with
    | 1 =>
      some { addr := txAddr raw, len := (txDword raw 8 &&& 0x000FFFFF).toNat,
             eop := (txCmd raw).getLsbD 0 }
    | _ => none
  else
    some { addr := txAddr raw, len := (txDword raw 8 &&& 0xFFFF).toNat,
           eop := (txCmd raw).getLsbD 0 }

variable {μ : Type} [ByteStore μ]

/-- A buffer that makes the frame too long, or that cannot be read, is dropped. -/
def appendTxData (s : E1000) (mem : μ) (addr : Word) (len : Nat) : E1000 :=
  if len = 0 then s
  else if maxFrame < s.txPartial.length + len then s
  else
    match ByteStore.read mem addr len with
    | some buf => { s with txPartial := s.txPartial ++ buf }
    | none => s

def finishTxFrame (s : E1000) : E1000 :=
  if s.txPartial = [] then s
  else { s with txQueue := s.txQueue ++ [s.txPartial], txPartial := [] }

/-- What a descriptor does to the frame. -/
def handleBuffer (s : E1000) (mem : μ) : Option TxBuffer → E1000
  | none => s
  | some b =>
    if b.eop then (s.appendTxData mem b.addr b.len).finishTxFrame
    else s.appendTxData mem b.addr b.len

/-- A descriptor that was handled: its index, its buffer, and the bytes that memory held there. -/
structure TxHandled where
  index : Reg
  buffer : Option TxBuffer
  data : Option (List Byte)
  deriving DecidableEq

def txHandled (mem : μ) (index : Reg) (raw : List Byte) : TxHandled where
  index
  buffer := txBuffer raw
  data := (txBuffer raw).bind fun b => ByteStore.read mem b.addr b.len

/-- The controller and memory while the ring is walked. -/
structure TxWalk (μ : Type) where
  dev : E1000
  mem : μ
  frames : Nat := 0
  wroteBack : Bool := false
  handled : List TxHandled := []

/-- The status is written back on request; a failed write is ignored. -/
def writeBack (mem : μ) (gpa : Word) (raw : List Byte) : μ :=
  if (txCmd raw).getLsbD 3 then (ByteStore.write mem (gpa + 12) [1]).1 else mem

/-- Whether a descriptor counts as a frame. -/
def endsFrame (raw : List Byte) : Bool := ((txBuffer raw).map TxBuffer.eop).getD false

/-- The index after another one. -/
def nextIndex (count index : Reg) : Reg := (index + 1) % count

/-- One turn of the walk, with the descriptor that was read. -/
def txTurn (base : Word) (count : Reg) (w : TxWalk μ) (raw : List Byte) : TxWalk μ where
  dev := { w.dev.handleBuffer w.mem (txBuffer raw) with tdh := nextIndex count w.dev.tdh }
  mem := writeBack w.mem (descAddr base w.dev.tdh) raw
  frames := if endsFrame raw then w.frames + 1 else w.frames
  wroteBack := w.wroteBack || (txCmd raw).getLsbD 3
  handled := w.handled ++ [txHandled w.mem w.dev.tdh raw]

/-- The walk, with the number of turns left. -/
def txLoop (base : Word) (count : Reg) : Nat → TxWalk μ → TxWalk μ
  | 0, w => w
  | n + 1, w =>
    if w.dev.tdh = w.dev.tdt then w
    else
      match ByteStore.read w.mem (descAddr base w.dev.tdh) descSize with
      | none => w
      | some raw => txLoop base count n (txTurn base count w raw)

/-- Any frame, and any status written back, raises the interrupt. -/
def finishTx (w : TxWalk μ) : TxWalk μ :=
  if 0 < w.frames ∨ w.wroteBack = true then { w with dev := w.dev.raiseInterrupt 1 } else w

def processTx (s : E1000) (mem : μ) : TxWalk μ :=
  if s.txEnabled = false then { dev := s, mem }
  else if s.txRingCount = 0 then { dev := s, mem }
  else finishTx (txLoop s.txBase s.txRingCount s.txRingCount.toNat { dev := s, mem })

/-- A write of TDT walks the ring. -/
def writeRegMem (s : E1000) (offset : Nat) (value : Reg) (mem : μ) : TxWalk μ :=
  if offset = 0x3818 then ({ s with tdt := value } : E1000).processTx mem
  else { dev := s.writeReg offset value, mem }

/-! ## Receive -/

/-- Put a frame into the buffer of the next descriptor; memory keeps what was written before a
write that failed. -/
def receiveFrame (s : E1000) (mem : μ) (frame : List Byte) : Bool × E1000 × μ :=
  if s.rxEnabled = false then (false, s, mem)
  else if s.rxRingCount = 0 then (false, s, mem)
  else if s.rdh = s.rdt then (false, s.raiseInterrupt 0x40, mem)
  else if maxFrame < frame.length then (false, s, mem)
  else
    let gpa := descAddr s.rxBase s.rdh
    match ByteStore.read mem gpa descSize with
    | none => (false, s, mem)
    | some raw =>
      match ByteStore.write mem (txAddr raw) frame with
      | (mem, false) => (false, s, mem)
      | (mem, true) =>
        match ByteStore.write mem (gpa + 8) (Word.toLeBytes (BitVec.ofNat 64 frame.length) 2) with
        | (mem, false) => (false, s, mem)
        | (mem, true) =>
          match ByteStore.write mem (gpa + 12) [3] with
          | (mem, false) => (false, s, mem)
          | (mem, true) =>
            (true, ({ s with rdh := nextIndex s.rxRingCount s.rdh }).raiseInterrupt 0x80, mem)

end E1000

end Rax.Devices

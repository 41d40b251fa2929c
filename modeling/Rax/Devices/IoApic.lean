import Rax.Lib.Bytes

/-!
# The I/O APIC

An index latch and a data window into the indexed registers. Partial writes of the window are
read-modify-write of the whole register, so the register itself ends up right however a value
is split. Writing the low half of a redirection entry also evaluates the entry while its line
is asserted, once for each access.
-/

namespace Rax.Devices

/-- How devices with state `σ` answer: reads and writes at a time and an address. -/
structure MmioDevice (σ : Type) where
  read : σ → Nat → Word → Nat → List Byte
  write : σ → Nat → Word → List Byte → σ

/-- Register offset and byte position of an address in a device's window. -/
def registerOffset (base addr : Word) : Nat := (addr - base).toNat / 4 * 4

def bytePosition (base addr : Word) : Nat := (addr - base).toNat % 4

def ioApicBase : Word := 0xFEC00000

structure PendingIrq where
  gsi : Nat
  vector : Byte
  destination : Byte
  levelTriggered : Bool
  deriving DecidableEq

@[ext]
structure IoApic where
  ioregsel : Byte := 0
  id : Reg := 0
  redirectionTable : Fin 24 → Word := fun _ => 0x10000
  lineAsserted : Fin 24 → Bool := fun _ => false
  pending : List PendingIrq := []

/-- The indexed registers: each redirection entry has two halves. -/
inductive IoApicReg
  | id | ver | arb
  | low (entry : Fin 24)
  | high (entry : Fin 24)

def IoApicReg.ofIndex (index : Nat) : Option IoApicReg :=
  if index = 0x00 then some .id
  else if index = 0x01 then some .ver
  else if index = 0x02 then some .arb
  else if 0x10 ≤ index ∧ index < 0x40 then
    let offset := index - 0x10
    if offset % 2 = 0 then some (.low (Fin.ofNat 24 (offset / 2)))
    else some (.high (Fin.ofNat 24 (offset / 2)))
  else none

namespace IoApic

/-- Bits that software may write: all but the delivery status and the remote IRR. -/
def writableMask : Reg := ~~~(BitVec.twoPow 32 12 ||| BitVec.twoPow 32 14)

def readReg (s : IoApic) : Option IoApicReg → Reg
  | some .id => s.id
  | some .ver => 0x00170020
  | some .arb => s.id
  | some (.low entry) => (s.redirectionTable entry).lowHalf
  | some (.high entry) => (s.redirectionTable entry).highHalf
  | none => 0

/-- The mask bit of an entry. -/
def masked (rte : Word) : Bool := rte.getLsbD 16

def delivery (entry : Fin 24) (rte : Word) : PendingIrq where
  gsi := entry
  vector := rte.setWidth 8
  destination := (rte >>> 56).setWidth 8
  levelTriggered := rte.getLsbD 15

/-- Record a delivery unless the entry is masked. -/
def evaluateEntry (s : IoApic) (entry : Fin 24) : IoApic :=
  let rte := s.redirectionTable entry
  if masked rte then s else { s with pending := s.pending ++ [delivery entry rte] }

/-- Low half of an entry after a write. -/
def mergeLow (old value : Reg) : Reg := (value &&& writableMask) ||| (old &&& ~~~writableMask)

def setEntry (s : IoApic) (entry : Fin 24) (rte : Word) : IoApic :=
  { s with redirectionTable := Function.update s.redirectionTable entry rte }

def writeReg (s : IoApic) (value : Reg) : Option IoApicReg → IoApic
  | some .id => { s with id := value &&& 0x0F000000#32 }
  | some (.low entry) =>
    let old := s.redirectionTable entry
    let s := s.setEntry entry (old.withLow (mergeLow old.lowHalf value))
    if s.lineAsserted entry then s.evaluateEntry entry else s
  | some (.high entry) => s.setEntry entry ((s.redirectionTable entry).withHigh value)
  | _ => s

def selected (s : IoApic) : Option IoApicReg := IoApicReg.ofIndex s.ioregsel.toNat

/-- An input line changes; an asserted one is evaluated at once. -/
def setIrq (s : IoApic) (gsi : Nat) (asserted : Bool) : IoApic :=
  if h : gsi < 24 then
    let s := { s with lineAsserted := Function.update s.lineAsserted ⟨gsi, h⟩ asserted }
    if asserted then s.evaluateEntry ⟨gsi, h⟩ else s
  else s

end IoApic

def ioApicDevice : MmioDevice IoApic where
  read s _ addr n :=
    let reg := registerOffset ioApicBase addr
    let value : Reg :=
      if reg = 0x00 then s.ioregsel.setWidth 32
      else if reg = 0x10 then s.readReg s.selected
      else 0
    Reg.takeBytes value (bytePosition ioApicBase addr) n
  write s _ addr data :=
    let reg := registerOffset ioApicBase addr
    let pos := bytePosition ioApicBase addr
    if reg = 0x00 then
      -- The latch has one byte, which only the first address reaches.
      match data with
      | b :: _ => if pos = 0 then { s with ioregsel := b } else s
      | [] => s
    else if reg = 0x10 then
      s.writeReg ((s.readReg s.selected).putBytes pos data) s.selected
    else s

end Rax.Devices

import Rax.Lib.Bytes

/-!
# The PCI host bridge

Configuration spaces of functions behind an address latch and a data window, both accessed byte
by byte, and endpoints that decode the window of one of their base address registers. A register
holds what the guest wrote to it. Reading it back and deciding which accesses it routes are two
views of the stored value: the bridge forms the first on each read, and keeps the second beside
each endpoint, brought up to date after every write.
-/

namespace Rax.Devices

structure Bar where
  size : Reg
  io : Bool := false
  prefetchable : Bool := false
  bits64 : Bool := false

/-- The low bits that never belong to the address. -/
def lowBitsMask (io : Bool) : Reg := if io then 0b11 else 0b1111

/-- All address bits are set: the guest asks for the size. -/
def isProbe (io : Bool) (raw : Reg) : Bool :=
  raw &&& ~~~lowBitsMask io == 0xFFFFFFFF &&& ~~~lowBitsMask io

namespace Bar

def typeBits (bar : Bar) : Reg :=
  if bar.io then 0x1
  else (if bar.bits64 then 0b100 else 0) ||| (if bar.prefetchable then 0b1000 else 0)

def sizeMask (bar : Bar) : Reg :=
  if bar.size = 0 then 0
  else (~~~(bar.size - 1) &&& ~~~lowBitsMask bar.io) ||| bar.typeBits

def readBack (bar : Bar) (raw : Reg) : Reg :=
  if isProbe bar.io raw then bar.sizeMask else (raw &&& ~~~lowBitsMask bar.io) ||| bar.typeBits

end Bar

structure ConfigSpace where
  bytes : Nat → Byte := fun _ => 0
  bars : Nat → Option Bar := fun _ => none

namespace ConfigSpace

def getU32 (cs : ConfigSpace) (offset : Nat) : Reg :=
  .ofBytes (cs.bytes offset) (cs.bytes (offset + 1)) (cs.bytes (offset + 2)) (cs.bytes (offset + 3))

def setU32 (cs : ConfigSpace) (offset : Nat) (value : Reg) : ConfigSpace :=
  { cs with bytes := fun x =>
      if offset ≤ x ∧ x < offset + 4 then value.byteAt (x - offset) else cs.bytes x }

def setU8 (cs : ConfigSpace) (offset : Nat) (value : Byte) : ConfigSpace :=
  { cs with bytes := fun x => if x = offset then value else cs.bytes x }

def setU16 (cs : ConfigSpace) (offset : Nat) (value : BitVec 16) : ConfigSpace :=
  (cs.setU8 offset (value.setWidth 8)).setU8 (offset + 1) ((value >>> 8).setWidth 8)

def device (vendorId deviceId : BitVec 16) (classCode : Reg) (headerType : Byte) : ConfigSpace :=
  let cs : ConfigSpace := {}
  let cs := (cs.setU16 0x00 vendorId).setU16 0x02 deviceId
  let cs := cs.setU8 0x09 (classCode.byteAt 0)
  let cs := cs.setU8 0x0A (classCode.byteAt 1)
  let cs := cs.setU8 0x0B (classCode.byteAt 2)
  cs.setU8 0x0E headerType

/-- Register a base address register; its type bits can be read at once. -/
def setBar (cs : ConfigSpace) (index : Nat) (bar : Bar) : ConfigSpace :=
  let offset := 0x10 + index * 4
  let cs := { cs with bars := fun i => if i = index then some bar else cs.bars i }
  cs.setU32 offset ((cs.getU32 offset &&& ~~~lowBitsMask bar.io) ||| bar.typeBits)

/-- The base address register at a byte offset. -/
def barAt (cs : ConfigSpace) (offset : Nat) : Option Bar :=
  if offset < 0x10 then none
  else if (offset - 0x10) / 4 < 6 then cs.bars ((offset - 0x10) / 4) else none

/-- The bit of COMMAND that enables I/O or memory accesses. -/
def decodes (cs : ConfigSpace) (io : Bool) : Bool :=
  let cmd : BitVec 16 := (cs.getU32 0x04).setWidth 16
  if io then cmd &&& 0x1 != 0 else cmd &&& 0x2 != 0

end ConfigSpace

structure FunctionKey where
  bus : Byte
  device : Byte
  function : Byte
deriving DecidableEq

/-- A device behind a base address register. -/
inductive PciHandler (δ : Type) where
  | mmio (device : δ)
  | pio (device : δ)

def PciHandler.io {δ : Type} : PciHandler δ → Bool
  | mmio _ => false
  | pio _ => true

structure PciEndpoint (δ : Type) where
  key : FunctionKey
  handler : PciHandler δ
  barIndex : Nat
  barSize : Word
  io : Bool
  /-- The base that is decoded, zero if none is. -/
  currentBase : Word := 0

structure PciStub (δ : Type) where
  address : Reg := 0
  functions : FunctionKey → Option ConfigSpace
  endpoints : List (PciEndpoint δ) := []

namespace PciStub

variable {δ : Type}

def addFunction (pci : PciStub δ) (key : FunctionKey) (cs : ConfigSpace) : PciStub δ :=
  { pci with functions := fun k => if k = key then some cs else pci.functions k }

/-- The host bridge alone. -/
def new : PciStub δ :=
  let pci : PciStub δ := { functions := fun _ => none }
  pci.addFunction ⟨0, 0, 0⟩ (.device 0x8086 0x1237 0x060000 0x00)

/-- The base that an endpoint decodes, from its configuration space. -/
def baseOf (functions : FunctionKey → Option ConfigSpace) (ep : PciEndpoint δ) : Word :=
  let (decode, raw) : Bool × Reg :=
    match functions ep.key with
    | some cs => (cs.decodes ep.io, cs.getU32 (0x10 + ep.barIndex * 4))
    | none => (false, 0)
  let size : Reg := (if ep.barSize = 0 then 1 else ep.barSize).setWidth 32
  let base : Word := (raw &&& ~~~(size - 1) &&& ~~~lowBitsMask ep.io).setWidth 64
  if decode && base != 0 && !isProbe ep.io raw then base else 0

def recomputeBases (pci : PciStub δ) : PciStub δ :=
  { pci with
    endpoints := pci.endpoints.map fun ep => { ep with currentBase := baseOf pci.functions ep } }

/-- Attach an endpoint. Whether it decodes I/O or memory goes by its handler. -/
def attach (pci : PciStub δ) (key : FunctionKey) (cs : ConfigSpace) (barIndex : Nat)
    (handler : PciHandler δ) : PciStub δ :=
  let barSize : Word := ((cs.bars barIndex).map fun bar => bar.size.setWidth 64).getD 0
  let ep : PciEndpoint δ := { key, handler, barIndex, barSize, io := handler.io }
  ({ pci.addFunction key cs with endpoints := pci.endpoints ++ [ep] }).recomputeBases

def attachMmio (pci : PciStub δ) (key : FunctionKey) (cs : ConfigSpace) (barIndex : Nat)
    (device : δ) : PciStub δ := pci.attach key cs barIndex (.mmio device)

def attachPio (pci : PciStub δ) (key : FunctionKey) (cs : ConfigSpace) (barIndex : Nat)
    (device : δ) : PciStub δ := pci.attach key cs barIndex (.pio device)

/-- Function and register that the latch selects. -/
def decodeAddress (address : Reg) : Option (FunctionKey × Nat) :=
  if address &&& 0x80000000 = 0 then none
  else some
    ({ bus := (address >>> 16).setWidth 8
       device := ((address >>> 11) &&& 0x1F).setWidth 8
       function := ((address >>> 8) &&& 0x07).setWidth 8 },
      (address &&& 0xFC).toNat)

def readConfigDword (pci : PciStub δ) : Reg :=
  match decodeAddress pci.address with
  | none => 0xFFFFFFFF
  | some (key, register) =>
    match pci.functions key with
    | none => 0xFFFFFFFF
    | some cs =>
      let raw := cs.getU32 register
      match cs.barAt register with
      | some bar => bar.readBack raw
      | none => raw

def readRawConfigDword (pci : PciStub δ) : Reg :=
  match decodeAddress pci.address with
  | none => 0
  | some (key, register) =>
    match pci.functions key with
    | some cs => cs.getU32 register
    | none => 0

def writeConfigDword (pci : PciStub δ) (value : Reg) : PciStub δ :=
  match decodeAddress pci.address with
  | none => pci
  | some (key, register) =>
    match pci.functions key with
    | none => pci
    | some cs =>
      let pci := pci.addFunction key (cs.setU32 register value)
      if pci.endpoints.isEmpty then pci else pci.recomputeBases

/-- A byte written to a port. -/
def write (pci : PciStub δ) (port : BitVec 16) (value : Byte) : PciStub δ :=
  if 0xCF8#16 ≤ port ∧ port ≤ 0xCFB#16 then
    { pci with address := pci.address.putByte (port - 0xCF8).toNat value }
  else if 0xCFC#16 ≤ port ∧ port ≤ 0xCFF#16 then
    pci.writeConfigDword (pci.readRawConfigDword.putByte (port - 0xCFC).toNat value)
  else pci

/-- The test that the routing loops make of each endpoint. -/
def serves (io : Bool) (addr : Word) (ep : PciEndpoint δ) : Bool :=
  ep.io == io && ep.currentBase != 0 &&
    decide (ep.currentBase ≤ addr ∧ addr < ep.currentBase + ep.barSize) && ep.handler.io == io

/-- The endpoint that an access goes to, by its position, with the offset inside its window. -/
def target (pci : PciStub δ) (io : Bool) (addr : Word) : Option (Nat × Word) := do
  let i ← pci.endpoints.findIdx? (serves io addr)
  let ep ← pci.endpoints[i]?
  return (i, addr - ep.currentBase)

/-- Where `mmio_read` and `mmio_write` go. -/
def mmioTarget (pci : PciStub δ) (addr : Word) : Option (Nat × Word) := pci.target false addr

/-- Where `io_read` and `io_write` go. -/
def ioTarget (pci : PciStub δ) (port : BitVec 16) : Option (Nat × BitVec 16) :=
  (pci.target true (port.setWidth 64)).map fun (i, offset) => (i, offset.setWidth 16)

end PciStub

end Rax.Devices

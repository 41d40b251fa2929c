import Rax.Lib.ByteStore
import Rax.Lib.Bytes

/-!
# The AHCI host controller

Generic and port registers of a controller with one port, and the commands that are issued through
PxCI: the header, the command table, the regions of memory it lists, and the completion that is
posted. Sums of addresses wrap, as in a release build. Sizes and offsets of transfers are numbers:
they are bounded by the disk.
-/

namespace Rax.Devices

namespace Ahci

def sectorSize : Nat := 512
def cmdHeaderSize : Nat := 32
def cmdFisSize : Nat := 64
def prdtOffset : Nat := 0x80
def prdSize : Nat := 16
def rfisD2hOffset : Nat := 0x40
def numSlots : Nat := 32

/-- The address of a command header. -/
def hdrAddr (clb : Word) (slot : Nat) : Word := clb + BitVec.ofNat 64 (slot * cmdHeaderSize)

/-- The address of the region table of a command table. -/
def prdtAddr (ctba : Word) : Word := ctba + BitVec.ofNat 64 prdtOffset

/-- The address of an entry of a region table. -/
def prdAddr (prdtBase : Word) (i : Nat) : Word := prdtBase + BitVec.ofNat 64 (i * prdSize)

/-- The little-endian dword at a position. -/
def dwordAt (buf : List Byte) (pos : Nat) : Reg :=
  (Word.fromLeBytes ((buf.drop pos).take 4)).setWidth 32

/-- A 64-bit address from its halves. -/
def wide (lo hi : Reg) : Word := lo.setWidth 64 ||| (hi.setWidth 64 <<< 32)

end Ahci

open Ahci

structure CommandHeader where
  prdtl : Nat
  ctba : Word
  deriving DecidableEq

def CommandHeader.parse (buf : List Byte) : Option CommandHeader :=
  if buf.length < cmdHeaderSize then none
  else some { prdtl := (dwordAt buf 0 >>> 16).toNat, ctba := wide (dwordAt buf 8) (dwordAt buf 12) }

structure FisH2D where
  command : Byte
  lba : Nat
  count : Nat
  deriving DecidableEq

def FisH2D.parse (buf : List Byte) : Option FisH2D :=
  if buf.length < 16 ∨ buf.getD 0 0 ≠ 0x27 then none
  else
    some
      { command := buf.getD 2 0
        lba := (Word.fromLeBytes ((buf.drop 4).take 3 ++ (buf.drop 8).take 3)).toNat
        count := (Word.fromLeBytes ((buf.drop 12).take 2)).toNat }

structure Prd where
  dba : Word
  byteCount : Nat
  deriving DecidableEq

def Prd.parse (buf : List Byte) : Option Prd :=
  if buf.length < prdSize then none
  else
    some { dba := wide (dwordAt buf 0) (dwordAt buf 4)
           byteCount := (dwordAt buf 12 &&& 0x3FFFFF).toNat + 1 }

structure AhciPort where
  clb : Word := 0
  fb : Word := 0
  is : Reg := 0
  ie : Reg := 0
  cmd : Reg := 0
  tfd : Reg
  sig : Reg
  ssts : Reg
  sctl : Reg := 0
  serr : Reg := 0
  sact : Reg := 0
  ci : Reg := 0
  present : Bool
  deriving DecidableEq

namespace AhciPort

def new (present : Bool) : AhciPort :=
  if present then { tfd := 0x40, sig := 0x00000101, ssts := 0x133, present }
  else { tfd := 0x7F, sig := 0, ssts := 0, present }

/-- CR follows ST, and FR follows FRE. -/
def cmdRead (p : AhciPort) : Reg :=
  (p.cmd &&& ~~~0xC000#32) ||| (if p.cmd.getLsbD 0 then (0x8000 : Reg) else 0) |||
    (if p.cmd.getLsbD 4 then (0x4000 : Reg) else 0)

end AhciPort

structure AhciController (μ : Type) where
  base : Word
  mem : μ
  ghc : Reg := 0
  is : Reg := 0
  port : AhciPort
  disk : FlatMem
  interruptPending : Bool := false

namespace AhciController

variable {μ : Type} [ByteStore μ]

/-- A port has a device if there is a disk. -/
def new (base : Word) (mem : μ) (disk : FlatMem) : AhciController μ :=
  { base, mem, disk, port := AhciPort.new (disk.size != 0) }

def diskSectors (s : AhciController μ) : Nat := s.disk.size / sectorSize

/-- One port, 32 slots, AHCI only, 64-bit addresses. -/
def cap : Reg := 0x80041F00

def ae (s : AhciController μ) : Bool := s.ghc.getLsbD 31

/-! ## Completion -/

/-- The FIS goes to its slot of the receive area if FIS receive is enabled; a failed write is
ignored. -/
def postD2hFis (s : AhciController μ) (status error : Byte) : AhciController μ :=
  if s.port.cmd.getLsbD 4 = false then s
  else
    { s with mem := (ByteStore.write s.mem (s.port.fb + BitVec.ofNat 64 rfisD2hOffset)
        ([0x34, 0x40, status, error] ++ List.replicate 16 0)).1 }

def raisePortInterrupt (s : AhciController μ) (bits : Reg) : AhciController μ :=
  { s with
    port := { s.port with is := s.port.is ||| bits }
    is := s.is ||| 1
    interruptPending := s.interruptPending || (s.ghc.getLsbD 1 && s.port.ie &&& bits != 0) }

def completeOk (s : AhciController μ) : AhciController μ :=
  (({ s with port := { s.port with tfd := 0x40 } }).postD2hFis 0x40 0).raisePortInterrupt 1

def completeError (s : AhciController μ) : AhciController μ :=
  (({ s with port := { s.port with tfd := 0x441 } }).postD2hFis 0x41 4).raisePortInterrupt
    0x40000001

def writePrdbc (s : AhciController μ) (hdrGpa : Word) (prdbc : Nat) : AhciController μ :=
  { s with mem := (ByteStore.write s.mem (hdrGpa + 4)
      (Word.toLeBytes (BitVec.ofNat 64 prdbc) 4)).1 }

/-! ## Commands -/

/-- The regions of a table; the walk ends at an entry that cannot be read. -/
def prdtLoop (mem : μ) (prdtBase : Word) : Nat → Nat → List (Word × Nat)
  | 0, _ => []
  | n + 1, i =>
    match ByteStore.read mem (prdAddr prdtBase i) prdSize with
    | none => []
    | some buf =>
      match Prd.parse buf with
      | some prd => (prd.dba, prd.byteCount) :: prdtLoop mem prdtBase n (i + 1)
      | none => prdtLoop mem prdtBase n (i + 1)

def prdtSegments (s : AhciController μ) (hdr : CommandHeader) : List (Word × Nat) :=
  prdtLoop s.mem (prdtAddr hdr.ctba) hdr.prdtl 0

/-- The exact result of a product or sum, if it fits in 64 bits. -/
def checked (n : Nat) : Option Nat := if n < 2 ^ 64 then some n else none

/-- Offset on the disk and number of bytes; a count of zero is 65536 sectors. -/
def transferBounds (s : AhciController μ) (fis : FisH2D) : Option (Nat × Nat) := do
  let total := (if fis.count = 0 then 65536 else fis.count) * sectorSize
  let start ← checked (fis.lba * sectorSize)
  let stop ← checked (start + total)
  if s.disk.size < stop then none else some (start, total)

/-- From the disk to the regions, until one fails; with the bytes moved so far. -/
def readLoop : List (Word × Nat) → Nat → Nat → Nat → AhciController μ →
    AhciController μ × Option Nat
  | [], _, _, moved, s => (s, some moved)
  | (gpa, len) :: segs, off, remaining, moved, s =>
    if remaining = 0 then (s, some moved)
    else
      let n := min len remaining
      match ByteStore.write s.mem gpa (s.disk.bytes off n) with
      | (mem, false) => ({ s with mem }, none)
      | (mem, true) => readLoop segs (off + n) (remaining - n) (moved + n) { s with mem }

/-- From the regions to the disk. -/
def writeLoop : List (Word × Nat) → Nat → Nat → Nat → AhciController μ →
    AhciController μ × Option Nat
  | [], _, _, moved, s => (s, some moved)
  | (gpa, len) :: segs, off, remaining, moved, s =>
    if remaining = 0 then (s, some moved)
    else
      let n := min len remaining
      match ByteStore.read s.mem gpa n with
      | none => (s, none)
      | some bs =>
        writeLoop segs (off + n) (remaining - n) (moved + n)
          { s with disk := s.disk.putBytes off bs }

def cmdReadDma (s : AhciController μ) (hdr : CommandHeader) (fis : FisH2D) :
    AhciController μ × Option Nat :=
  match s.transferBounds fis with
  | none => (s, none)
  | some (start, total) => readLoop (s.prdtSegments hdr) start total 0 s

def cmdWriteDma (s : AhciController μ) (hdr : CommandHeader) (fis : FisH2D) :
    AhciController μ × Option Nat :=
  match s.transferBounds fis with
  | none => (s, none)
  | some (start, total) => writeLoop (s.prdtSegments hdr) start total 0 s

/-- A string, two characters a word with the first one high, padded with spaces. -/
def putAtaString (words : Nat) (text : String) : List (BitVec 16) :=
  let chars := text.toList.map fun (c : Char) => BitVec.ofNat 16 c.toNat
  (List.range words).map fun i => (chars.getD (2 * i) 0x20 <<< 8) ||| chars.getD (2 * i + 1) 0x20

def identifyWords (total : Nat) : List (BitVec 16) :=
  let lba28 := min total 0x0FFFFFFF
  overlay (List.replicate 256 0)
    [(0, [0x0040, 16383]), (3, [16]), (6, [63]), (10, putAtaString 10 "RAX-AHCI-0000000001 "),
      (23, putAtaString 4 "1.0     "),
      (27, putAtaString 20 "RAX Virtual SATA Disk                   "), (47, [0x8010]),
      (49, [0x0300, 0x4000]), (53, [0x0007]),
      (60, [BitVec.ofNat 16 lba28, BitVec.ofNat 16 (lba28 / 2 ^ 16)]), (80, [0x00F0]),
      (82, [0x5000, 0x4400, 0x4000, 0x5000, 0x0400, 0x4000]),
      (100, [BitVec.ofNat 16 total, BitVec.ofNat 16 (total / 2 ^ 16),
        BitVec.ofNat 16 (total / 2 ^ 32), BitVec.ofNat 16 (total / 2 ^ 48)])]

def buildIdentify (s : AhciController μ) : List Byte :=
  (identifyWords s.diskSectors).flatMap fun w => Word.toLeBytes (w.setWidth 64) 2

/-- The block to the regions, until one fails. -/
def identifyLoop : List (Word × Nat) → List Byte → Nat → AhciController μ →
    AhciController μ × Option Nat
  | [], _, moved, s => (s, some moved)
  | (gpa, len) :: segs, block, moved, s =>
    if block = [] then (s, some moved)
    else
      let n := min len block.length
      match ByteStore.write s.mem gpa (block.take n) with
      | (mem, false) => ({ s with mem }, none)
      | (mem, true) => identifyLoop segs (block.drop n) (moved + n) { s with mem }

def cmdIdentify (s : AhciController μ) (hdr : CommandHeader) : AhciController μ × Option Nat :=
  identifyLoop (s.prdtSegments hdr) s.buildIdentify 0 s

/-- The commands, with the number of bytes moved. -/
def dispatch (s : AhciController μ) (hdr : CommandHeader) (fis : FisH2D) :
    AhciController μ × Option Nat :=
  match fis.command.toNat with
  | 0x25 => s.cmdReadDma hdr fis
  | 0x35 => s.cmdWriteDma hdr fis
  | 0xEC => s.cmdIdentify hdr
  | _ => (s, none)

def readHeader (s : AhciController μ) (slot : Nat) : Option CommandHeader := do
  let buf ← ByteStore.read s.mem (hdrAddr s.port.clb slot) cmdHeaderSize
  CommandHeader.parse buf

def readFis (s : AhciController μ) (hdr : CommandHeader) : Option FisH2D := do
  let buf ← ByteStore.read s.mem hdr.ctba cmdFisSize
  FisH2D.parse buf

def runSlot (s : AhciController μ) (slot : Nat) : AhciController μ :=
  match s.readHeader slot with
  | none => s.completeError
  | some hdr =>
    match s.readFis hdr with
    | none => s.completeError
    | some fis =>
      match s.dispatch hdr fis with
      | (t, some prdbc) => (t.writePrdbc (hdrAddr s.port.clb slot) prdbc).completeOk
      | (t, none) => t.completeError

/-- A slot that is issued is run, and its bit cleared. -/
def issueSlot (s : AhciController μ) (slot : Nat) : AhciController μ :=
  if s.port.ci.getLsbD slot = false then s
  else
    let s := s.runSlot slot
    { s with port := { s.port with ci := s.port.ci &&& ~~~BitVec.twoPow 32 slot } }

/-- Whether commands are run at all. -/
def running (s : AhciController μ) : Bool :=
  s.ae && s.port.cmd.getLsbD 0 && s.port.cmd.getLsbD 4 && s.port.present

def processCommands (s : AhciController μ) : AhciController μ :=
  if s.running then (List.range numSlots).foldl issueSlot s else s

/-! ## Registers -/

def readPortReg (s : AhciController μ) (offset : Nat) : Reg :=
  if (offset - 0x100) / 0x80 ≠ 0 then 0
  else
    match (offset - 0x100) % 0x80 with
    | 0x00 => s.port.clb.setWidth 32
    | 0x04 => (s.port.clb >>> 32).setWidth 32
    | 0x08 => s.port.fb.setWidth 32
    | 0x0C => (s.port.fb >>> 32).setWidth 32
    | 0x10 => s.port.is
    | 0x14 => s.port.ie
    | 0x18 => s.port.cmdRead
    | 0x20 => s.port.tfd
    | 0x24 => s.port.sig
    | 0x28 => s.port.ssts
    | 0x2C => s.port.sctl
    | 0x30 => s.port.serr
    | 0x34 => s.port.sact
    | 0x38 => s.port.ci
    | _ => 0

def readReg32 (s : AhciController μ) (offset : Nat) : Reg :=
  if 0x100 ≤ offset then s.readPortReg offset
  else
    match offset with
    | 0x00 => cap
    | 0x04 => s.ghc
    | 0x08 => s.is
    | 0x0C => 1
    | 0x10 => 0x00010300
    | _ => 0

/-- Everything but the disk and memory goes back to what it was at first. -/
def hbaReset (s : AhciController μ) : AhciController μ :=
  { s with ghc := 0, is := 0, port := AhciPort.new s.port.present, interruptPending := false }

def writeGhc (s : AhciController μ) (value : Reg) : AhciController μ :=
  if value.getLsbD 0 then s.hbaReset else { s with ghc := value &&& ~~~1#32 }

/-- Replace one half of a 64-bit register. -/
def setLow (v : Word) (value : Reg) : Word := (v &&& 0xFFFFFFFF00000000) ||| value.setWidth 64

def setHigh (v : Word) (value : Reg) : Word := (v &&& 0xFFFFFFFF) ||| (value.setWidth 64 <<< 32)

def writePortReg (s : AhciController μ) (offset : Nat) (value : Reg) : AhciController μ :=
  if (offset - 0x100) / 0x80 ≠ 0 then s
  else
    match (offset - 0x100) % 0x80 with
    | 0x00 => { s with port := { s.port with clb := setLow s.port.clb value } }
    | 0x04 => { s with port := { s.port with clb := setHigh s.port.clb value } }
    | 0x08 => { s with port := { s.port with fb := setLow s.port.fb value } }
    | 0x0C => { s with port := { s.port with fb := setHigh s.port.fb value } }
    | 0x10 => { s with port := { s.port with is := s.port.is &&& ~~~value } }
    | 0x14 => { s with port := { s.port with ie := value } }
    | 0x18 => { s with port := { s.port with cmd := value &&& ~~~0xC000#32 } }
    | 0x2C => { s with port := { s.port with sctl := value } }
    | 0x30 => { s with port := { s.port with serr := s.port.serr &&& ~~~value } }
    | 0x34 => { s with port := { s.port with sact := value } }
    | 0x38 => ({ s with port := { s.port with ci := s.port.ci ||| value } }).processCommands
    | _ => s

def writeReg32 (s : AhciController μ) (offset : Nat) (value : Reg) : AhciController μ :=
  if 0x100 ≤ offset then s.writePortReg offset value
  else
    match offset with
    | 0x04 => s.writeGhc value
    | 0x08 => { s with is := s.is &&& ~~~value }
    | _ => s

/-! ## The bus interface -/

def alignedOffset (s : AhciController μ) (addr : Word) : Nat := ((addr - s.base) &&& ~~~3#64).toNat

def byteInReg (s : AhciController μ) (addr : Word) : Nat := ((addr - s.base) &&& 3).toNat

def read (s : AhciController μ) (addr : Word) (n : Nat) : List Byte :=
  (s.readReg32 (s.alignedOffset addr)).takeBytes (s.byteInReg addr) n

/-- Bytes that are not written are taken from what the register reads as. -/
def write (s : AhciController μ) (addr : Word) (data : List Byte) : AhciController μ :=
  s.writeReg32 (s.alignedOffset addr)
    ((s.readReg32 (s.alignedOffset addr)).putBytes (s.byteInReg addr) data)

end AhciController

end Rax.Devices

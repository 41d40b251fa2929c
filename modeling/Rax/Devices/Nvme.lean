import Rax.Lib.ByteStore
import Rax.Lib.Bytes

/-!
# The NVMe controller

Registers, the enable handshake, admin commands, reads and writes of the one namespace, and
completions. A write to a submission queue's tail doorbell runs the queue: each entry is read,
executed and completed in turn.

The controller is generic in the guest memory. Sums of addresses wrap, as in a release build. Queue
sizes are at most 65536 and indices are below them, so they are numbers. A write also returns what
it did to the queues, in order: these events are for the statements about runs and are read by no
function of the controller.
-/

namespace Rax.Devices

namespace Nvme

def sqeSize : Nat := 64
def cqeSize : Nat := 16
def lbaSize : Nat := 512
def pageSize : Nat := 4096

def statusSuccess : BitVec 16 := 0x00
def statusInvalidOpcode : BitVec 16 := 0x01
def statusInvalidField : BitVec 16 := 0x02
def statusDataXferError : BitVec 16 := 0x04
def statusLbaOutOfRange : BitVec 16 := 0x80

/-- The address of a submission entry. -/
def sqeAddr (base : Word) (slot : Nat) : Word := base + BitVec.ofNat 64 (slot * sqeSize)

/-- The address of a completion entry. -/
def cqeAddr (base : Word) (slot : Nat) : Word := base + BitVec.ofNat 64 (slot * cqeSize)

end Nvme

open Nvme

structure SubmissionEntry where
  opcode : Byte
  cid : BitVec 16
  nsid : Reg
  prp1 : Word
  prp2 : Word
  cdw10 : Reg
  cdw11 : Reg
  cdw12 : Reg
  deriving DecidableEq, Repr

/-- Dword `i` of an entry. -/
def SubmissionEntry.dword (buf : List Byte) (i : Nat) : Reg :=
  (Word.fromLeBytes ((buf.drop (4 * i)).take 4)).setWidth 32

def SubmissionEntry.parse (buf : List Byte) : Option SubmissionEntry :=
  if buf.length < sqeSize then none
  else some
    { opcode := (dword buf 0).setWidth 8
      cid := (dword buf 0).extractLsb' 16 16
      nsid := dword buf 1
      prp1 := Word.fromLeBytes ((buf.drop 24).take 8)
      prp2 := Word.fromLeBytes ((buf.drop 32).take 8)
      cdw10 := dword buf 10
      cdw11 := dword buf 11
      cdw12 := dword buf 12 }

structure NvmeQueue where
  base : Word := 0
  size : Nat := 0
  tail : Nat := 0
  head : Nat := 0
  phase : Bool := false
  cqid : Nat := 0
  active : Bool := false
  deriving DecidableEq, Repr

def NvmeQueue.acceptsDoorbell (q : NvmeQueue) (value : Nat) : Bool :=
  q.active && q.size != 0 && decide (value < q.size)

structure NvmeController (μ : Type) where
  base : Word
  mem : μ
  cc : Reg := 0
  csts : Reg := 0
  intms : Reg := 0
  aqa : Reg := 0
  asq : Word := 0
  acq : Word := 0
  adminSq : NvmeQueue := {}
  adminCq : NvmeQueue := {}
  ioSqs : List NvmeQueue := List.replicate 5 {}
  ioCqs : List NvmeQueue := List.replicate 5 {}
  disk : FlatMem
  interruptPending : Bool := false

/-- What a completion entry is built from. -/
structure Completion where
  phase : Bool
  sqHead : Nat
  sqid : Nat
  cid : BitVec 16
  status : BitVec 16
  dw0 : Reg
  deriving DecidableEq, Repr

namespace Completion

/-- Head pointer and identifier of the submission queue. -/
def dw2 (c : Completion) : Reg :=
  BitVec.ofNat 32 (c.sqHead % 65536) ||| (BitVec.ofNat 32 c.sqid <<< 16)

/-- Command identifier, phase tag and status. -/
def dw3 (c : Completion) : Reg :=
  c.cid.setWidth 32 ||| (if c.phase then (0x10000 : Reg) else 0) ||| (c.status.setWidth 32 <<< 17)

/-- The sixteen bytes of the entry. -/
def bytes (c : Completion) : List Byte :=
  Word.toLeBytes (c.dw0.setWidth 64) 4 ++ List.replicate 4 0 ++
    Word.toLeBytes (c.dw2.setWidth 64) 4 ++ Word.toLeBytes (c.dw3.setWidth 64) 4

end Completion

/-- An entry written to a completion queue, and whether the memory took it. -/
structure Posted where
  cqid : Nat
  slot : Nat
  addr : Word
  bytes : List Byte
  accepted : Bool
  deriving DecidableEq, Repr

/-- An entry taken from a submission queue: the completion queue this one is bound to, its head just
after, the command's identifier, and what was posted. -/
structure Consumed where
  sqid : Nat
  cqid : Nat
  head : Nat
  cid : BitVec 16
  posted : Option Posted
  deriving DecidableEq, Repr

inductive NvmeEvent where
  /-- A completion queue is made. -/
  | created (cqid : Nat) (base : Word) (size : Nat)
  /-- The host's head doorbell is taken. -/
  | advanced (cqid head : Nat)
  | consumed (c : Consumed)
  deriving DecidableEq, Repr

namespace NvmeController

variable {μ : Type} [ByteStore μ]

/-- 256 entries, contiguous queues, half a second, the NVM command set. -/
def cap : Word := 0x00000020010100FF

def namespaceBlocks (s : NvmeController μ) : Nat := s.disk.size / lbaSize

/-! ## Enable and reset -/

def ccEn (s : NvmeController μ) : Bool := s.cc.getLsbD 0

/-- The admin queues from AQA, ASQ and ACQ. -/
def enable (s : NvmeController μ) : NvmeController μ :=
  { s with
    adminSq := { base := s.asq, size := (s.aqa &&& 0xFFF).toNat + 1, active := true }
    adminCq := { base := s.acq, size := ((s.aqa >>> 16) &&& 0xFFF).toNat + 1, phase := true,
                 active := true }
    csts := s.csts ||| 1 }

def controllerReset (s : NvmeController μ) : NvmeController μ :=
  { s with
    adminSq := {}
    adminCq := {}
    ioSqs := s.ioSqs.map fun _ => {}
    ioCqs := s.ioCqs.map fun _ => {}
    csts := s.csts &&& ~~~3#32
    interruptPending := false }

/-- The edges of EN. -/
def applyEnable (s : NvmeController μ) (value : Reg) : NvmeController μ :=
  if !s.ccEn && value.getLsbD 0 then ({ s with cc := value }).enable
  else if s.ccEn && !value.getLsbD 0 then ({ s with cc := value }).controllerReset
  else { s with cc := value }

/-- A shutdown notification is reported as complete at once. -/
def writeCc (s : NvmeController μ) (value : Reg) : NvmeController μ :=
  if value.extractLsb' 14 2 = 0 then s.applyEnable value
  else { s.applyEnable value with csts := ((s.applyEnable value).csts &&& ~~~0xC#32) ||| 0x8 }

/-! ## Admin commands -/

/-- A string in a field of fixed width, padded with spaces. -/
def writeAscii (width : Nat) (text : String) : List Byte :=
  ((text.toList.map fun (c : Char) => BitVec.ofNat 8 c.toNat) ++ List.replicate width 0x20).take width

/-- A page of zeros with some fields set. -/
def page (fields : List (Nat × List Byte)) : List Byte :=
  overlay (List.replicate pageSize 0) fields

/-- Vendor and subsystem, serial number, model, firmware, arbitration burst, version, entry sizes
and the number of namespaces. -/
def fillIdentifyController : List Byte :=
  page [(0x00, Word.toLeBytes 0x1B36 2), (0x02, Word.toLeBytes 0x1AF4 2),
    (0x04, writeAscii 20 "RAX-NVME-0001"), (0x18, writeAscii 40 "rax NVMe Controller"),
    (0x40, writeAscii 8 "1.0"), (0x48, [0]), (0x80, Word.toLeBytes 0x00010400 4), (0x200, [0x66]),
    (0x201, [0x44]), (0x204, Word.toLeBytes 1 4)]

/-- Size, capacity, use, and one format of 512-byte blocks. -/
def fillIdentifyNamespace (s : NvmeController μ) : List Byte :=
  let nblocks := Word.toLeBytes (BitVec.ofNat 64 s.namespaceBlocks) 8
  page [(0x00, nblocks), (0x08, nblocks), (0x10, nblocks), (0x19, [0]), (0x1A, [0]),
    (0x80, Word.toLeBytes 0x90000 4)]

def identifyPage (s : NvmeController μ) (e : SubmissionEntry) : Option (List Byte) :=
  match (e.cdw10 &&& 0xFF).toNat with
  | 0x01 => some fillIdentifyController
  | 0x00 => some (if e.nsid ≠ 1 then page [] else s.fillIdentifyNamespace)
  | 0x02 => some (if e.nsid.toNat < 1 then page [(0, Word.toLeBytes 1 4)] else page [])
  | _ => none

def adminIdentify (s : NvmeController μ) (e : SubmissionEntry) :
    NvmeController μ × BitVec 16 × Reg :=
  match s.identifyPage e with
  | none => (s, statusInvalidField, 0)
  | some data =>
    match ByteStore.write s.mem e.prp1 data with
    | (mem, true) => ({ s with mem }, statusSuccess, 0)
    | (mem, false) => ({ s with mem }, statusDataXferError, 0)

/-- Queue id, and size, of a create command. -/
def queueId (e : SubmissionEntry) : Nat := (e.cdw10 &&& 0xFFFF).toNat

def queueSize (e : SubmissionEntry) : Nat := ((e.cdw10 >>> 16) &&& 0xFFFF).toNat + 1

def newIoCq (e : SubmissionEntry) : NvmeQueue :=
  { base := e.prp1, size := queueSize e, phase := true, cqid := queueId e, active := true }

def adminCreateIoCq (s : NvmeController μ) (e : SubmissionEntry) :
    NvmeController μ × BitVec 16 × Reg :=
  if queueId e = 0 ∨ s.ioCqs.length ≤ queueId e ∨ e.cdw11.getLsbD 0 = false ∨ e.prp1 = 0 then
    (s, statusInvalidField, 0)
  else
    ({ s with ioCqs := s.ioCqs.set (queueId e) (newIoCq e) }, statusSuccess, 0)

/-- The completion queue that a new submission queue is bound to. -/
def boundCqid (e : SubmissionEntry) : Nat := (e.cdw11 >>> 16).toNat

def newIoSq (e : SubmissionEntry) : NvmeQueue :=
  { base := e.prp1, size := queueSize e, cqid := boundCqid e, active := true }

def adminCreateIoSq (s : NvmeController μ) (e : SubmissionEntry) :
    NvmeController μ × BitVec 16 × Reg :=
  if queueId e = 0 ∨ s.ioSqs.length ≤ queueId e ∨ e.cdw11.getLsbD 0 = false ∨ e.prp1 = 0 ∨
      s.ioCqs.length ≤ boundCqid e ∨ (s.ioCqs.getD (boundCqid e) {}).active = false then
    (s, statusInvalidField, 0)
  else ({ s with ioSqs := s.ioSqs.set (queueId e) (newIoSq e) }, statusSuccess, 0)

def adminDeleteIoCq (s : NvmeController μ) (e : SubmissionEntry) :
    NvmeController μ × BitVec 16 × Reg :=
  if queueId e = 0 ∨ s.ioCqs.length ≤ queueId e ∨
      (s.ioCqs.getD (queueId e) {}).active = false ∨
      s.ioSqs.any (fun q => q.active && q.cqid == queueId e) then (s, statusInvalidField, 0)
  else ({ s with ioCqs := s.ioCqs.set (queueId e) {} }, statusSuccess, 0)

def adminDeleteIoSq (s : NvmeController μ) (e : SubmissionEntry) :
    NvmeController μ × BitVec 16 × Reg :=
  if queueId e = 0 ∨ s.ioSqs.length ≤ queueId e ∨
      (s.ioSqs.getD (queueId e) {}).active = false then (s, statusInvalidField, 0)
  else ({ s with ioSqs := s.ioSqs.set (queueId e) {} }, statusSuccess, 0)

/-- The granted number of queues, as zero-based counts. -/
def grantedQueues : Reg := 3 ||| (3 <<< 16)

def adminFeatures (s : NvmeController μ) (e : SubmissionEntry) :
    NvmeController μ × BitVec 16 × Reg :=
  if e.cdw10 &&& 0xFF = 0x07 then (s, statusSuccess, grantedQueues) else (s, statusSuccess, 0)

def adminSetFeatures (s : NvmeController μ) (e : SubmissionEntry) :
    NvmeController μ × BitVec 16 × Reg := s.adminFeatures e

def adminGetFeatures (s : NvmeController μ) (e : SubmissionEntry) :
    NvmeController μ × BitVec 16 × Reg := s.adminFeatures e

def execAdmin (s : NvmeController μ) (e : SubmissionEntry) : NvmeController μ × BitVec 16 × Reg :=
  match e.opcode.toNat with
  | 0x06 => s.adminIdentify e
  | 0x05 => s.adminCreateIoCq e
  | 0x01 => s.adminCreateIoSq e
  | 0x04 => s.adminDeleteIoCq e
  | 0x00 => s.adminDeleteIoSq e
  | 0x09 => s.adminSetFeatures e
  | 0x0A => s.adminGetFeatures e
  | _ => (s, statusInvalidOpcode, 0)

/-! ## Reads and writes -/

/-- The guest buffers of a transfer; more than two pages are refused. -/
def prpSegments (prp1 prp2 : Word) (total : Nat) : Option (List (Word × Nat)) :=
  if prp1 = 0 ∨ total = 0 then none
  else
    let firstPageRoom := pageSize - prp1.toNat % pageSize
    if total ≤ firstPageRoom then some [(prp1, total)]
    else if pageSize < total - firstPageRoom then none
    else if prp2 = 0 then none
    else some [(prp1, firstPageRoom), (prp2, total - firstPageRoom)]

/-- Move the segments between the disk and the guest until one fails. -/
def moveSegments (read : Bool) : List (Word × Nat) → Nat → NvmeController μ →
    NvmeController μ × BitVec 16 × Reg
  | [], _, s => (s, statusSuccess, 0)
  | (gpa, len) :: segments, off, s =>
    if read then
      match ByteStore.write s.mem gpa (s.disk.bytes off len) with
      | (mem, true) => moveSegments read segments (off + len) { s with mem }
      | (mem, false) => ({ s with mem }, statusDataXferError, 0)
    else
      match ByteStore.read s.mem gpa len with
      | some bytes => moveSegments read segments (off + len)
          { s with disk := s.disk.putBytes off bytes }
      | none => (s, statusDataXferError, 0)

/-- First block, and number of bytes, of a transfer. -/
def startLba (e : SubmissionEntry) : Nat := e.cdw10.toNat + e.cdw11.toNat * 2 ^ 32

def transferLength (e : SubmissionEntry) : Nat := ((e.cdw12 &&& 0xFFFF).toNat + 1) * lbaSize

/-- A sum or product that must fit in 64 bits. -/
def checked (n : Nat) : Option Nat := if n < 2 ^ 64 then some n else none

def nvmRw (s : NvmeController μ) (e : SubmissionEntry) (read : Bool) :
    NvmeController μ × BitVec 16 × Reg :=
  if e.nsid ≠ 1 then (s, statusInvalidField, 0)
  else
    match checked (startLba e * lbaSize) with
    | none => (s, statusLbaOutOfRange, 0)
    | some start =>
      match checked (start + transferLength e) with
      | none => (s, statusLbaOutOfRange, 0)
      | some stop =>
        if s.disk.size < stop then (s, statusLbaOutOfRange, 0)
        else
          match prpSegments e.prp1 e.prp2 (transferLength e) with
          | none => (s, statusDataXferError, 0)
          | some segments => moveSegments read segments start s

def execNvm (s : NvmeController μ) (e : SubmissionEntry) : NvmeController μ × BitVec 16 × Reg :=
  match e.opcode.toNat with
  | 0x00 => (s, statusSuccess, 0)
  | 0x02 => s.nvmRw e true
  | 0x01 => s.nvmRw e false
  | _ => (s, statusInvalidOpcode, 0)

/-! ## Completions -/

/-- The first submission queue that is bound to a completion queue, or the same number. -/
def sqidForCqid (s : NvmeController μ) (cqid : Nat) : Nat :=
  match s.ioSqs.findIdx? (fun q => q.active && q.cqid == cqid) with
  | some i => i
  | none => cqid

/-- After a post: the next slot, with the phase flipped when it is the first one. -/
def advanceTail (q : NvmeQueue) : NvmeQueue :=
  { q with
    tail := (q.tail + 1) % q.size
    phase := if (q.tail + 1) % q.size = 0 then !q.phase else q.phase }

/-- Write an entry to the tail slot of a completion queue; a failed write is ignored. -/
def writeCqe (s : NvmeController μ) (cqid : Nat) (cq : NvmeQueue) (c : Completion) :
    NvmeController μ × Option Posted :=
  ({ s with mem := (ByteStore.write s.mem (cqeAddr cq.base cq.tail) c.bytes).1,
            interruptPending := true },
    some { cqid, slot := cq.tail, addr := cqeAddr cq.base cq.tail, bytes := c.bytes,
           accepted := (ByteStore.write s.mem (cqeAddr cq.base cq.tail) c.bytes).2 })

/-- The completion of an admin command. -/
def postAdmin (s : NvmeController μ) (e : SubmissionEntry) (status : BitVec 16) (dw0 : Reg) :
    NvmeController μ × Option Posted :=
  if s.adminCq.size = 0 ∨ s.adminCq.active = false then (s, none)
  else
    ({ s with adminCq := advanceTail s.adminCq }).writeCqe 0 s.adminCq
      { phase := s.adminCq.phase, sqHead := s.adminSq.head, sqid := 0, cid := e.cid, status, dw0 }

/-- The completion of an I/O command: the submission queue and its head are looked up by the
completion queue. -/
def postIo (s : NvmeController μ) (cqid : Nat) (e : SubmissionEntry) (status : BitVec 16)
    (dw0 : Reg) : NvmeController μ × Option Posted :=
  match s.ioCqs[cqid]? with
  | none => (s, none)
  | some cq =>
    if cq.size = 0 ∨ cq.active = false then (s, none)
    else
      ({ s with ioCqs := s.ioCqs.set cqid (advanceTail cq) }).writeCqe cqid cq
        { phase := cq.phase, sqHead := (s.ioSqs.getD (s.sqidForCqid cqid) {}).head,
          sqid := s.sqidForCqid cqid, cid := e.cid, status, dw0 }

def postCompletion (s : NvmeController μ) (admin : Bool) (cqid : Nat) (e : SubmissionEntry)
    (status : BitVec 16) (dw0 : Reg) : NvmeController μ × Option Posted :=
  if admin then s.postAdmin e status dw0 else s.postIo cqid e status dw0

/-! ## Running the queues -/

def readSqe (s : NvmeController μ) (base : Word) (slot : Nat) : Option SubmissionEntry := do
  let buf ← ByteStore.read s.mem (sqeAddr base slot) sqeSize
  SubmissionEntry.parse buf

def setFatal (s : NvmeController μ) : NvmeController μ := { s with csts := s.csts ||| 2 }

/-- Step over the entry at the head of the admin queue. -/
def advanceAdminHead (s : NvmeController μ) : NvmeController μ :=
  { s with adminSq := { s.adminSq with head := (s.adminSq.head + 1) % s.adminSq.size } }

/-- A successful create command makes a completion queue. -/
def createdBy (e : SubmissionEntry) (status : BitVec 16) : List NvmeEvent :=
  if e.opcode = 0x05 ∧ status = statusSuccess then
    [.created (queueId e) e.prp1 (queueSize e)]
  else []

/-- One turn of the loop over the admin queue. -/
def adminTurn (s : NvmeController μ) (e : SubmissionEntry) : List NvmeEvent × NvmeController μ :=
  let (s, status, dw0) := s.execAdmin e
  let s := s.advanceAdminHead
  let head := s.adminSq.head
  let (s, posted) := s.postCompletion true 0 e status dw0
  (createdBy e status ++ [.consumed { sqid := 0, cqid := 0, head, cid := e.cid, posted }], s)

/-- The loop, with the number of turns left. -/
def adminLoop : Nat → NvmeController μ → List NvmeEvent × NvmeController μ
  | 0, s => ([], if s.adminSq.head ≠ s.adminSq.tail then s.setFatal else s)
  | n + 1, s =>
    if s.adminSq.head = s.adminSq.tail then ([], s)
    else
      match s.readSqe s.adminSq.base s.adminSq.head with
      | none => ([], s)
      | some e =>
        let (events, s) := s.adminTurn e
        let (later, s) := adminLoop n s
        (events ++ later, s)

def processAdminSq (s : NvmeController μ) : List NvmeEvent × NvmeController μ :=
  if s.adminSq.active = false ∨ s.adminSq.size = 0 then ([], s) else adminLoop s.adminSq.size s

/-- One turn of the loop over an I/O queue; the head is a local variable until the loop ends. -/
def ioTurn (sqid : Nat) (sq : NvmeQueue) (head : Nat) (s : NvmeController μ) (e : SubmissionEntry) :
    List NvmeEvent × NvmeController μ :=
  let (s, status, dw0) := s.execNvm e
  let (s, posted) := s.postCompletion false sq.cqid e status dw0
  ([.consumed { sqid, cqid := sq.cqid, head := (head + 1) % sq.size, cid := e.cid, posted }], s)

def ioLoop (sqid : Nat) (sq : NvmeQueue) : Nat → Nat → NvmeController μ →
    List NvmeEvent × Nat × NvmeController μ
  | 0, head, s => ([], head, if head ≠ sq.tail then s.setFatal else s)
  | n + 1, head, s =>
    if head = sq.tail then ([], head, s)
    else
      match s.readSqe sq.base head with
      | none => ([], head, s)
      | some e =>
        let (events, s) := ioTurn sqid sq head s e
        let (later, head, s) := ioLoop sqid sq n ((head + 1) % sq.size) s
        (events ++ later, head, s)

def processIoSq (s : NvmeController μ) (sqid : Nat) : List NvmeEvent × NvmeController μ :=
  match s.ioSqs[sqid]? with
  | none => ([], s)
  | some sq =>
    if sq.active = false ∨ sq.size = 0 then ([], s)
    else
      let (events, head, s) := ioLoop sqid sq sq.size sq.head s
      (events, { s with ioSqs := s.ioSqs.modify sqid fun q => { q with head } })

/-! ## Registers -/

/-- The number of a doorbell; odd ones are those of completion queues. -/
def doorbellIndex (offset : Nat) : Nat := (offset - 0x1000) / 4

def readDoorbell (s : NvmeController μ) (offset : Nat) : Reg :=
  let qid := doorbellIndex offset / 2
  BitVec.ofNat 32 <|
    if doorbellIndex offset % 2 = 1 then
      if qid = 0 then s.adminCq.head else (s.ioCqs.getD qid {}).head
    else if qid = 0 then s.adminSq.tail
    else (s.ioSqs.getD qid {}).tail

/-- A completion queue's head doorbell. -/
def writeHeadDoorbell (s : NvmeController μ) (qid value : Nat) :
    List NvmeEvent × NvmeController μ :=
  if qid = 0 then
    if s.adminCq.acceptsDoorbell value then
      ([.advanced 0 value], { s with adminCq := { s.adminCq with head := value } })
    else ([], s.setFatal)
  else
    match s.ioCqs[qid]? with
    | none => ([], s)
    | some q =>
      if q.acceptsDoorbell value then
        ([.advanced qid value], { s with ioCqs := s.ioCqs.set qid { q with head := value } })
      else ([], s.setFatal)

/-- A submission queue's tail doorbell, which runs the queue. -/
def writeTailDoorbell (s : NvmeController μ) (qid value : Nat) :
    List NvmeEvent × NvmeController μ :=
  if qid = 0 then
    if s.adminSq.acceptsDoorbell value then
      ({ s with adminSq := { s.adminSq with tail := value } }).processAdminSq
    else ([], s.setFatal)
  else
    match s.ioSqs[qid]? with
    | none => ([], s)
    | some q =>
      if q.acceptsDoorbell value then
        ({ s with ioSqs := s.ioSqs.set qid { q with tail := value } }).processIoSq qid
      else ([], s.setFatal)

def writeDoorbell (s : NvmeController μ) (offset : Nat) (value : Reg) :
    List NvmeEvent × NvmeController μ :=
  if doorbellIndex offset % 2 = 1 then s.writeHeadDoorbell (doorbellIndex offset / 2) value.toNat
  else s.writeTailDoorbell (doorbellIndex offset / 2) value.toNat

def readReg32 (s : NvmeController μ) (offset : Nat) : Reg :=
  if 0x1000 ≤ offset then s.readDoorbell offset
  else
    match offset with
    | 0x00 => cap.setWidth 32
    | 0x04 => (cap >>> 32).setWidth 32
    | 0x08 => 0x00010400
    | 0x0C | 0x10 => s.intms
    | 0x14 => s.cc
    | 0x1C => s.csts
    | 0x24 => s.aqa
    | 0x28 => s.asq.setWidth 32
    | 0x2C => (s.asq >>> 32).setWidth 32
    | 0x30 => s.acq.setWidth 32
    | 0x34 => (s.acq >>> 32).setWidth 32
    | _ => 0

/-- Replace one half of a 64-bit register. -/
def setLow (v : Word) (value : Reg) : Word := (v &&& 0xFFFFFFFF00000000) ||| value.setWidth 64

def setHigh (v : Word) (value : Reg) : Word := (v &&& 0xFFFFFFFF) ||| (value.setWidth 64 <<< 32)

/-- The registers below the doorbells. -/
def writeControl (s : NvmeController μ) (offset : Nat) (value : Reg) : NvmeController μ :=
  match offset with
  | 0x0C => { s with intms := s.intms ||| value }
  | 0x10 => { s with intms := s.intms &&& ~~~value }
  | 0x14 => s.writeCc value
  | 0x24 => { s with aqa := value }
  | 0x28 => { s with asq := setLow s.asq value }
  | 0x2C => { s with asq := setHigh s.asq value }
  | 0x30 => { s with acq := setLow s.acq value }
  | 0x34 => { s with acq := setHigh s.acq value }
  | _ => s

/-- Setting EN makes the admin completion queue. -/
def createdByControl (s : NvmeController μ) (offset : Nat) (value : Reg) : List NvmeEvent :=
  if offset = 0x14 ∧ s.ccEn = false ∧ value.getLsbD 0 then
    [.created 0 s.acq (((s.aqa >>> 16) &&& 0xFFF).toNat + 1)]
  else []

def writeReg32 (s : NvmeController μ) (offset : Nat) (value : Reg) :
    List NvmeEvent × NvmeController μ :=
  if 0x1000 ≤ offset then s.writeDoorbell offset value
  else (s.createdByControl offset value, s.writeControl offset value)

/-! ## The bus interface -/

/-- The offset of the register that an address is in, and of the byte in it. -/
def alignedOffset (s : NvmeController μ) (addr : Word) : Nat := ((addr - s.base) &&& ~~~3#64).toNat

def byteInReg (s : NvmeController μ) (addr : Word) : Nat := ((addr - s.base) &&& 3).toNat

def read (s : NvmeController μ) (addr : Word) (n : Nat) : List Byte :=
  (s.readReg32 (s.alignedOffset addr)).takeBytes (s.byteInReg addr) n

/-- The register's value with the written bytes in place. -/
def merged (s : NvmeController μ) (addr : Word) (data : List Byte) : Reg :=
  (s.readReg32 (s.alignedOffset addr)).putBytes (s.byteInReg addr) data

def write (s : NvmeController μ) (addr : Word) (data : List Byte) :
    List NvmeEvent × NvmeController μ :=
  s.writeReg32 (s.alignedOffset addr) (s.merged addr data)

end NvmeController

end Rax.Devices

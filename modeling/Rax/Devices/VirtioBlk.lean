import Rax.Devices.VirtQueue
import Rax.Lib.ByteStore

/-!
# The virtio block device

A request is a chain of a header, data buffers and a status byte. The device copies between
its disk image and the data buffers, buffer by buffer from the sector of the header on, and
stops at the first buffer that does not do. The handler is generic in the guest memory, so that
it can be run on memory that records what is written.
-/

namespace Rax.Devices

def Descriptor.isWriteOnly (d : Descriptor) : Bool := d.flags.getLsbD 1

inductive BlkReqType where
  | dataIn
  | dataOut
  | flush
  | getId
  | other
deriving DecidableEq

def BlkReqType.ofBits (bits : BitVec 32) : BlkReqType :=
  if bits = 0 then .dataIn
  else if bits = 1 then .dataOut
  else if bits = 4 then .flush
  else if bits = 8 then .getId
  else .other

inductive BlkStatus where
  | ok
  | ioErr
  | unsupp
deriving DecidableEq

def BlkStatus.byte : BlkStatus → Byte
  | ok => 0
  | ioErr => 1
  | unsupp => 2

structure BlkReqHeader where
  reqType : BlkReqType
  sector : Word

/-- Bytes 4 to 8 are not looked at. -/
def BlkReqHeader.parse (buf : List Byte) : Option BlkReqHeader :=
  if buf.length < 16 then none
  else some
    { reqType := .ofBits ((Word.fromLeBytes (buf.take 4)).setWidth 32)
      sector := Word.fromLeBytes ((buf.drop 8).take 8) }

structure VirtioBlk where
  disk : FlatMem
  readOnly : Bool := false
  id : Vector Byte 20

def VirtioBlk.new (disk : FlatMem) : VirtioBlk where
  disk
  -- The text "rax-virtio-blk", filled up with zeros.
  id := #v[114, 97, 120, 45, 118, 105, 114, 116, 105, 111, 45, 98, 108, 107, 0, 0, 0, 0, 0, 0]

/-- A chain that the device accepts: its header, the data buffers and the status byte. -/
structure BlkRequest where
  header : BlkReqHeader
  data : List Descriptor
  status : Descriptor

/-- The state of a transfer: the disk, the guest memory and the bytes counted so far. -/
structure BlkTransfer (μ : Type) where
  disk : FlatMem
  mem : μ
  written : BitVec 32 := 0

section Handler

variable {μ : Type} [ByteStore μ]

/-- The checks at the start of `handle_chain`. -/
def BlkRequest.ofChain (chain : DescriptorChain) (mem : μ) : Option BlkRequest :=
  match chain.descriptors with
  | [] | [_] => none
  | hdr :: desc :: descs => do
    if hdr.len.toNat < 16 then none
    let buf ← ByteStore.read mem hdr.addr 16
    let header ← BlkReqHeader.parse buf
    let status := (desc :: descs).getLastD hdr
    if !status.isWriteOnly || status.len == 0 then none
    return { header, data := (desc :: descs).dropLast, status }

namespace BlkTransfer

/-- One data buffer, against the disk at an offset. The flag says whether it was transferred. -/
def moveBuffer (toGuest : Bool) (offset : Nat) (desc : Descriptor) (t : BlkTransfer μ) :
    BlkTransfer μ × Bool :=
  let stop := offset + desc.len.toNat
  if desc.isWriteOnly != toGuest then (t, false)
  else if 2 ^ 64 ≤ stop then (t, false)
  else if t.disk.size < stop then (t, false)
  else if toGuest then
    match ByteStore.write t.mem desc.addr (t.disk.bytes offset desc.len.toNat) with
    | (mem, true) => ({ t with mem, written := t.written + desc.len }, true)
    | (mem, false) => ({ t with mem }, false)
  else
    match ByteStore.read t.mem desc.addr desc.len.toNat with
    | some bytes => ({ t with disk := t.disk.putBytes offset bytes }, true)
    | none => (t, false)

/-- The loop of `transfer`. -/
def moveBuffers (toGuest : Bool) : Nat → List Descriptor → BlkTransfer μ →
    BlkStatus × BlkTransfer μ
  | _, [], t => (.ok, t)
  | offset, desc :: descs, t =>
    match moveBuffer toGuest offset desc t with
    | (t, true) => moveBuffers toGuest (offset + desc.len.toNat) descs t
    | (t, false) => (.ioErr, t)

def transfer (sector : Word) (data : List Descriptor) (toGuest : Bool) (t : BlkTransfer μ) :
    BlkStatus × BlkTransfer μ :=
  if 2 ^ 64 ≤ sector.toNat * 512 then (.ioErr, t)
  else moveBuffers toGuest (sector.toNat * 512) data t

/-- The device id goes to the first data buffer only. -/
def getId (id : Vector Byte 20) (data : List Descriptor) (t : BlkTransfer μ) :
    BlkStatus × BlkTransfer μ :=
  match data with
  | [] => (.ioErr, t)
  | desc :: _ =>
    if !desc.isWriteOnly then (.ioErr, t)
    else
      let n := min desc.len.toNat 20
      match ByteStore.write t.mem desc.addr (id.toList.take n) with
      | (mem, true) => (.ok, { t with mem, written := t.written + BitVec.ofNat 32 n })
      | (mem, false) => (.ioErr, { t with mem })

end BlkTransfer

namespace VirtioBlk

/-- What is done before the status byte is written. -/
def serve (blk : VirtioBlk) (req : BlkRequest) (mem : μ) : BlkStatus × BlkTransfer μ :=
  let t : BlkTransfer μ := { disk := blk.disk, mem }
  match req.header.reqType with
  | .dataIn => t.transfer req.header.sector req.data true
  | .dataOut =>
    if blk.readOnly then (.ioErr, t) else t.transfer req.header.sector req.data false
  | .flush => (.ok, t)
  | .getId => t.getId blk.id req.data
  | .other => (.unsupp, t)

/-- `handle_chain`. The write of the status byte is not checked. -/
def handleChain (blk : VirtioBlk) (chain : DescriptorChain) (mem : μ) :
    BitVec 32 × VirtioBlk × μ :=
  match BlkRequest.ofChain chain mem with
  | none => (0, blk, mem)
  | some req =>
    let (status, t) := blk.serve req mem
    let (mem, _) := ByteStore.write t.mem req.status.addr [status.byte]
    (t.written + 1, { blk with disk := t.disk }, mem)

end VirtioBlk

end Handler

/-- The bytes that the buffers of a list take together. -/
def dataLength (data : List Descriptor) : Nat := (data.map fun d => d.len.toNat).sum

@[simp] theorem dataLength_cons (d : Descriptor) (ds : List Descriptor) :
    dataLength (d :: ds) = d.len.toNat + dataLength ds := rfl

theorem len_le_dataLength {d : Descriptor} {data : List Descriptor} (h : d ∈ data) :
    d.len.toNat ≤ dataLength data := by
  induction data with
  | nil => cases h
  | cons d' ds ih =>
    rw [dataLength_cons]
    rcases List.mem_cons.mp h with rfl | h
    · exact Nat.le_add_right _ _
    · exact Nat.le_trans (ih h) (Nat.le_add_left _ _)

/-- Guest bytes of the buffers. -/
def gathered (mem : FlatMem) (data : List Descriptor) : List Byte :=
  data.flatMap fun d => mem.bytes d.addr.toNat d.len.toNat

/-- One write per buffer, with the bytes of the disk from an offset on. -/
def scattered (disk : FlatMem) : Nat → List Descriptor → List ByteWrite
  | _, [] => []
  | offset, d :: ds =>
    ⟨d.addr, disk.bytes offset d.len.toNat⟩ :: scattered disk (offset + d.len.toNat) ds

/-- A write inside a buffer that the device may write. -/
def InWritable (descs : List Descriptor) (w : ByteWrite) : Prop :=
  ∃ d ∈ descs, d.isWriteOnly = true ∧ w.addr = d.addr ∧ w.bytes.length ≤ d.len.toNat

theorem InWritable.cons {d : Descriptor} {data : List Descriptor} {w : ByteWrite}
    (h : InWritable data w) : InWritable (d :: data) w := by
  obtain ⟨d', hmem, hw⟩ := h
  exact ⟨d', List.mem_cons_of_mem d hmem, hw⟩

theorem bytes_scattered (disk : FlatMem) (offset : Nat) (data : List Descriptor) :
    (scattered disk offset data).flatMap (·.bytes) = disk.bytes offset (dataLength data) := by
  induction data generalizing offset with
  | nil => rfl
  | cons d ds ih => rw [scattered, List.flatMap_cons, ih, dataLength_cons, FlatMem.bytes_add]

theorem mem_scattered {disk : FlatMem} {offset : Nat} {data : List Descriptor} {w : ByteWrite}
    (h : w ∈ scattered disk offset data) :
    ∃ d ∈ data, w.addr = d.addr ∧ w.bytes.length = d.len.toNat := by
  induction data generalizing offset with
  | nil => cases h
  | cons d ds ih =>
    rcases List.mem_cons.mp h with rfl | h
    · exact ⟨d, List.mem_cons_self, rfl, FlatMem.length_bytes⟩
    · obtain ⟨d', hd', hw⟩ := ih h
      exact ⟨d', List.mem_cons_of_mem d hd', hw⟩

/-- Memory that holds what was scattered gives it back. -/
theorem gathered_of_scattered {disk mem : FlatMem} {offset : Nat} {data : List Descriptor}
    (h : ∀ w ∈ scattered disk offset data, mem.bytes w.addr.toNat w.bytes.length = w.bytes) :
    gathered mem data = disk.bytes offset (dataLength data) := by
  induction data generalizing offset with
  | nil => rfl
  | cons d ds ih =>
    obtain ⟨hd, hds⟩ := List.forall_mem_cons.mp h
    rw [FlatMem.length_bytes] at hd
    rw [gathered, List.flatMap_cons, hd, dataLength_cons, FlatMem.bytes_add, ← ih hds, gathered]

theorem length_gathered (mem : FlatMem) (data : List Descriptor) :
    (gathered mem data).length = dataLength data := by
  simp [gathered, dataLength, List.length_flatMap]

namespace BlkTransfer

variable {t : BlkTransfer (Recorded FlatMem)} {toGuest : Bool} {offset : Nat} {d : Descriptor}
  {data : List Descriptor}

/-- The checks on a data buffer. -/
structure Movable (toGuest : Bool) (offset : Nat) (d : Descriptor)
    (t : BlkTransfer (Recorded FlatMem)) : Prop where
  direction : d.isWriteOnly = toGuest
  addressable : offset + d.len.toNat < 2 ^ 64
  onDisk : offset + d.len.toNat ≤ t.disk.size
  inMemory : t.mem.store.Fits d.addr d.len.toNat

theorem moveBuffer_of_not_movable (h : ¬ Movable toGuest offset d t) :
    moveBuffer toGuest offset d t = (t, false) := by
  by_cases hdir : d.isWriteOnly = toGuest
  · by_cases haddr : 2 ^ 64 ≤ offset + d.len.toNat
    · simp [moveBuffer, hdir, haddr, -Nat.reducePow]
    · by_cases hdisk : t.disk.size < offset + d.len.toNat
      · simp [moveBuffer, hdir, haddr, hdisk, -Nat.reducePow]
      · have hmem : ¬ t.mem.store.Fits d.addr d.len.toNat := fun hfits =>
          h ⟨hdir, Nat.lt_of_not_le haddr, Nat.le_of_not_lt hdisk, hfits⟩
        cases toGuest with
        | true =>
          have hwrite : ByteStore.write t.mem d.addr (t.disk.bytes offset d.len.toNat) =
              (t.mem, false) := Recorded.write_of_not_fits (by simpa using hmem)
          simp [moveBuffer, hdir, haddr, hdisk, -Nat.reducePow, hwrite]
        | false =>
          have hread : ByteStore.read t.mem d.addr d.len.toNat = none := if_neg hmem
          simp [moveBuffer, hdir, haddr, hdisk, -Nat.reducePow, hread]
  · simp [moveBuffer, hdir]

theorem moveBuffer_in (h : Movable true offset d t) :
    ∃ mem, moveBuffer true offset d t = ({ t with mem, written := t.written + d.len }, true) ∧
      Recorded.Wrote t.mem mem [⟨d.addr, t.disk.bytes offset d.len.toNat⟩] := by
  have hfits : t.mem.store.Fits d.addr (t.disk.bytes offset d.len.toNat).length := by
    simpa using h.inMemory
  obtain ⟨mem, hwrite, hwrote⟩ := Recorded.write_of_fits hfits
  refine ⟨mem, ?_, hwrote⟩
  simp [moveBuffer, h.direction, Nat.not_le.mpr h.addressable, Nat.not_lt.mpr h.onDisk, hwrite,
    -Nat.reducePow, -not_le, -not_lt]

theorem moveBuffer_out (h : Movable false offset d t) :
    moveBuffer false offset d t =
      ({ t with disk := t.disk.putBytes offset (t.mem.store.bytes d.addr.toNat d.len.toNat) },
        true) := by
  have hread : ByteStore.read t.mem d.addr d.len.toNat =
      some (t.mem.store.bytes d.addr.toNat d.len.toNat) := if_pos h.inMemory
  simp [moveBuffer, h.direction, Nat.not_le.mpr h.addressable, Nat.not_lt.mpr h.onDisk, hread,
    -Nat.reducePow, -not_le, -not_lt]

theorem moveBuffers_stop (h : ¬ Movable toGuest offset d t) :
    moveBuffers toGuest offset (d :: data) t = (.ioErr, t) := by
  rw [moveBuffers, moveBuffer_of_not_movable h]

/-- What a copy to the guest does, with the writes it makes. -/
structure CopiesIn (offset : Nat) (data : List Descriptor) (t t' : BlkTransfer (Recorded FlatMem))
    (status : BlkStatus) (ws : List ByteWrite) : Prop where
  disk : t'.disk = t.disk
  wrote : Recorded.Wrote t.mem t'.mem ws
  inside : ∀ w ∈ ws, InWritable data w
  written : t'.written = t.written + BitVec.ofNat 32 (Recorded.count ws)
  ok : status = .ok → ws = scattered t.disk offset data

theorem moveBuffers_in (offset : Nat) (data : List Descriptor)
    (t : BlkTransfer (Recorded FlatMem)) :
    ∃ ws, CopiesIn offset data t (moveBuffers true offset data t).2
      (moveBuffers true offset data t).1 ws := by
  induction data generalizing offset t with
  | nil =>
    refine ⟨[], rfl, .refl _, by simp, ?_, fun _ => rfl⟩
    simp [moveBuffers, Recorded.count]
  | cons d ds ih =>
    by_cases h : Movable true offset d t
    · obtain ⟨mem, hmove, hwrote⟩ := moveBuffer_in h
      obtain ⟨ws, hws⟩ := ih (offset + d.len.toNat) { t with mem, written := t.written + d.len }
      have hrun : moveBuffers true offset (d :: ds) t = moveBuffers true (offset + d.len.toNat) ds
          { t with mem, written := t.written + d.len } := by
        rw [moveBuffers, hmove]
      rw [hrun]
      refine ⟨_ :: ws, hws.disk, hwrote.trans hws.wrote, ?_, ?_, ?_⟩
      · refine List.forall_mem_cons.mpr ⟨?_, fun w hw => (hws.inside w hw).cons⟩
        exact ⟨d, List.mem_cons_self, h.direction, rfl, by simp⟩
      · have hcount : Recorded.count (⟨d.addr, t.disk.bytes offset d.len.toNat⟩ :: ws) =
            d.len.toNat + Recorded.count ws := by
          simp [Recorded.count]
        rw [hws.written, hcount, BitVec.ofNat_add, BitVec.ofNat_toNat, BitVec.setWidth_eq,
          BitVec.add_assoc]
      · intro hok
        rw [scattered, hws.ok hok]
    · rw [moveBuffers_stop h]
      refine ⟨[], rfl, .refl _, by simp, by simp [Recorded.count], ?_⟩
      intro hok
      cases hok

theorem moveBuffers_in_ok (hdata : ∀ d ∈ data, d.isWriteOnly = true ∧
      t.mem.store.Fits d.addr d.len.toNat)
    (hdisk : offset + dataLength data ≤ t.disk.size) (haddr : offset + dataLength data < 2 ^ 64) :
    (moveBuffers true offset data t).1 = .ok := by
  induction data generalizing offset t with
  | nil => rfl
  | cons d ds ih =>
    obtain ⟨⟨hdir, hfits⟩, hds⟩ := List.forall_mem_cons.mp hdata
    rw [dataLength_cons] at hdisk haddr
    have hmovable : Movable true offset d t := ⟨hdir, by omega, by omega, hfits⟩
    obtain ⟨mem, hmove, hwrote⟩ := moveBuffer_in hmovable
    have hdisk' : offset + d.len.toNat + dataLength ds ≤ t.disk.size := by omega
    rw [moveBuffers, hmove]
    refine ih (fun d' hd' => ⟨(hds d' hd').1, ?_⟩) hdisk' (by omega)
    have hsize : mem.store.size = t.mem.store.size := by rw [hwrote.store, FlatMem.replay_size]
    simpa only [FlatMem.Fits, hsize] using (hds d' hd').2

/-- What a copy to the disk does. -/
structure CopiesOut (offset : Nat) (data : List Descriptor)
    (t t' : BlkTransfer (Recorded FlatMem)) (status : BlkStatus) : Prop where
  mem : t'.mem = t.mem
  written : t'.written = t.written
  size : t'.disk.size = t.disk.size
  outside : ∀ x, ¬ (offset ≤ x ∧ x < offset + dataLength data) → t'.disk.byte x = t.disk.byte x
  ok : status = .ok →
    t'.disk.bytes offset (dataLength data) = gathered t.mem.store data
  onDisk : status = .ok → data ≠ [] →
    offset + dataLength data ≤ t.disk.size ∧ offset + dataLength data < 2 ^ 64

theorem moveBuffers_out (offset : Nat) (data : List Descriptor)
    (t : BlkTransfer (Recorded FlatMem)) :
    CopiesOut offset data t (moveBuffers false offset data t).2
      (moveBuffers false offset data t).1 := by
  induction data generalizing offset t with
  | nil => exact ⟨rfl, rfl, rfl, fun _ _ => rfl, fun _ => rfl, fun _ hne => absurd rfl hne⟩
  | cons d ds ih =>
    by_cases h : Movable false offset d t
    · let bytes := t.mem.store.bytes d.addr.toNat d.len.toNat
      have hlength : bytes.length = d.len.toNat := FlatMem.length_bytes
      have hrun : moveBuffers false offset (d :: ds) t = moveBuffers false (offset + d.len.toNat) ds
          { t with disk := t.disk.putBytes offset bytes } := by
        rw [moveBuffers, moveBuffer_out h]
      rw [hrun]
      have hrest := ih (offset + d.len.toNat) { t with disk := t.disk.putBytes offset bytes }
      refine ⟨hrest.mem, hrest.written, hrest.size, ?_, ?_, ?_⟩
      · intro x hx
        rw [dataLength_cons] at hx
        rw [hrest.outside x (by omega)]
        exact FlatMem.byte_putBytes_outside (by omega)
      · intro hok
        -- The rest of the buffers goes behind this one.
        have hkept : FlatMem.SameAt _ (t.disk.putBytes offset bytes) offset d.len.toNat :=
          fun x _ hlt => hrest.outside x (by omega)
        have hfirst : (t.disk.putBytes offset bytes).bytes offset d.len.toNat = bytes :=
          hlength ▸ FlatMem.bytes_putBytes_same
        rw [dataLength_cons, FlatMem.bytes_add, FlatMem.bytes_congr hkept, hfirst, hrest.ok hok]
        rfl
      · intro hok _
        cases ds with
        | nil => exact ⟨h.onDisk, h.addressable⟩
        | cons d' ds' =>
          have hend := hrest.onDisk hok (List.cons_ne_nil _ _)
          simp only [dataLength_cons, FlatMem.putBytes_size] at hend ⊢
          omega
    · rw [moveBuffers_stop h]
      refine ⟨rfl, rfl, rfl, fun _ _ => rfl, ?_, ?_⟩ <;>
        · intro hok
          cases hok

/-- The write of the device id: into the first buffer, as far as it fits. -/
def WritesId (id : Vector Byte 20) (data : List Descriptor) (ws : List ByteWrite) : Prop :=
  ∃ d ds, data = d :: ds ∧ ws = [⟨d.addr, id.toList.take (min d.len.toNat 20)⟩]

/-- What a request for the device id does, with the writes it makes. -/
structure GetsId (id : Vector Byte 20) (data : List Descriptor)
    (t t' : BlkTransfer (Recorded FlatMem)) (status : BlkStatus) (ws : List ByteWrite) : Prop where
  disk : t'.disk = t.disk
  wrote : Recorded.Wrote t.mem t'.mem ws
  inside : ∀ w ∈ ws, InWritable data w
  written : t'.written = t.written + BitVec.ofNat 32 (Recorded.count ws)
  ok : status = .ok → WritesId id data ws

theorem getId_spec (id : Vector Byte 20) (data : List Descriptor)
    (t : BlkTransfer (Recorded FlatMem)) :
    ∃ ws, GetsId id data t (getId id data t).2 (getId id data t).1 ws := by
  have hnone : ∃ ws, GetsId id data t t .ioErr ws :=
    ⟨[], rfl, .refl _, by simp, by simp [Recorded.count], fun hok => by cases hok⟩
  cases data with
  | nil => exact hnone
  | cons d ds =>
    cases hdir : d.isWriteOnly with
    | false => simpa only [getId, hdir, Bool.not_false, if_true] using hnone
    | true =>
      let bytes := id.toList.take (min d.len.toNat 20)
      have hlength : bytes.length = min d.len.toNat 20 := by
        simp [bytes]
      by_cases hfits : t.mem.store.Fits d.addr bytes.length
      · obtain ⟨mem, hwrite, hwrote⟩ := Recorded.write_of_fits hfits
        have hid : getId id (d :: ds) t =
            (.ok, { t with mem, written := t.written + BitVec.ofNat 32 (min d.len.toNat 20) }) := by
          simp only [getId, hdir, Bool.not_true, Bool.false_eq_true, if_false]
          rw [hwrite]
        rw [hid]
        refine ⟨[⟨d.addr, bytes⟩], rfl, hwrote, ?_, ?_, fun _ => ⟨d, ds, rfl, rfl⟩⟩
        · refine List.forall_mem_singleton.mpr ⟨d, List.mem_cons_self, hdir, rfl, ?_⟩
          exact hlength ▸ Nat.min_le_left _ _
        · simp [Recorded.count, hlength]
      · have hid : getId id (d :: ds) t = (.ioErr, t) := by
          simp only [getId, hdir, Bool.not_true, Bool.false_eq_true, if_false]
          rw [Recorded.write_of_not_fits hfits]
        rw [hid]
        exact hnone

end BlkTransfer

/-- Where on the disk a request starts. -/
def BlkRequest.base (req : BlkRequest) : Nat := req.header.sector.toNat * 512

/-- What is done before the status byte is written, with the writes that are made. -/
structure BlkRequest.Served (blk : VirtioBlk) (req : BlkRequest) (mem : Recorded FlatMem)
    (status : BlkStatus) (t : BlkTransfer (Recorded FlatMem)) (ws : List ByteWrite) : Prop where
  wrote : Recorded.Wrote mem t.mem ws
  inside : ∀ w ∈ ws, InWritable req.data w
  written : t.written = BitVec.ofNat 32 (Recorded.count ws)
  size : t.disk.size = blk.disk.size
  diskKept : (req.header.reqType = .dataOut → blk.readOnly = true) → t.disk = blk.disk
  diskOutside : ∀ x, ¬ (req.base ≤ x ∧ x < req.base + dataLength req.data) →
    t.disk.byte x = blk.disk.byte x
  okIn : status = .ok → req.header.reqType = .dataIn → ws = scattered blk.disk req.base req.data
  okId : status = .ok → req.header.reqType = .getId → BlkTransfer.WritesId blk.id req.data ws
  okOut : status = .ok → req.header.reqType = .dataOut → ws = [] ∧
    t.disk.bytes req.base (dataLength req.data) = gathered mem.store req.data ∧
    (req.data ≠ [] → req.base + dataLength req.data ≤ blk.disk.size ∧
      req.base + dataLength req.data < 2 ^ 64)

namespace VirtioBlk

variable {blk : VirtioBlk} {req : BlkRequest} {mem : Recorded FlatMem}

theorem served_none {status : BlkStatus}
    (hin : status = .ok → req.header.reqType = .flush) :
    req.Served blk mem status { disk := blk.disk, mem } [] where
  wrote := .refl _
  inside := by simp
  written := rfl
  size := rfl
  diskKept := fun _ => rfl
  diskOutside := fun _ _ => rfl
  okIn := fun hok htype => by cases htype.symm.trans (hin hok)
  okId := fun hok htype => by cases htype.symm.trans (hin hok)
  okOut := fun hok htype => by cases htype.symm.trans (hin hok)

theorem serve_spec (blk : VirtioBlk) (req : BlkRequest) (mem : Recorded FlatMem) :
    ∃ ws, req.Served blk mem (blk.serve req mem).1 (blk.serve req mem).2 ws := by
  have herr : ∃ ws, req.Served blk mem .ioErr { disk := blk.disk, mem } ws :=
    ⟨[], served_none fun hok => by cases hok⟩
  cases htype : req.header.reqType with
  | dataIn =>
    simp only [serve, htype, BlkTransfer.transfer]
    split
    · exact herr
    · obtain ⟨ws, hws⟩ := BlkTransfer.moveBuffers_in (req.header.sector.toNat * 512) req.data
        { disk := blk.disk, mem }
      refine ⟨ws, hws.wrote, hws.inside, ?_, congrArg _ hws.disk, fun _ => hws.disk,
        fun x _ => congrArg (·.byte x) hws.disk, fun hok _ => hws.ok hok, ?_, ?_⟩
      · exact hws.written.trans (BitVec.zero_add _)
      · exact fun _ hid => by cases htype.symm.trans hid
      · exact fun _ hout => by cases htype.symm.trans hout
  | dataOut =>
    simp only [serve, htype, BlkTransfer.transfer]
    split
    · exact herr
    · rename_i hro
      split
      · exact herr
      · have hout := BlkTransfer.moveBuffers_out (req.header.sector.toNat * 512) req.data
          { disk := blk.disk, mem }
        refine ⟨[], ?_, by simp, hout.written, hout.size, fun h => absurd (h htype) hro,
          hout.outside, ?_, ?_, fun hok _ => ⟨rfl, hout.ok hok, hout.onDisk hok⟩⟩
        · rw [hout.mem]
          exact .refl _
        · exact fun _ hin => by cases htype.symm.trans hin
        · exact fun _ hid => by cases htype.symm.trans hid
  | flush =>
    simp only [serve, htype]
    exact ⟨[], served_none fun _ => htype⟩
  | getId =>
    simp only [serve, htype]
    obtain ⟨ws, hws⟩ := BlkTransfer.getId_spec blk.id req.data { disk := blk.disk, mem }
    refine ⟨ws, hws.wrote, hws.inside, hws.written.trans (BitVec.zero_add _),
      congrArg _ hws.disk, fun _ => hws.disk, fun x _ => congrArg (·.byte x) hws.disk, ?_,
      fun hok _ => hws.ok hok, ?_⟩
    · exact fun _ hin => by cases htype.symm.trans hin
    · exact fun _ hout => by cases htype.symm.trans hout
  | other =>
    simp only [serve, htype]
    exact ⟨[], served_none fun hok => by cases hok⟩

end VirtioBlk

end Rax.Devices

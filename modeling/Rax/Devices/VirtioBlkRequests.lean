import Rax.Devices.VirtioBlk

/-!
# Requests to the virtio block device

Handling a chain touches no disk byte that the request does not name and no guest byte outside
the buffers that the device may write; it counts what it writes, and a transfer that is reported
to have succeeded is complete. Bytes that one request wrote to the disk are returned by a later
one, however the two cut them into buffers. The count takes the status byte for granted, so it is
right if that byte lies inside memory. A flush succeeds without looking at its buffers, and the
device id goes to the first buffer only.
-/

namespace Rax.Devices

theorem BlkStatus.byte_injective {s s' : BlkStatus} (h : s.byte = s'.byte) : s = s' := by
  cases s <;> cases s' <;> first | rfl | cases h

/-- An accepted request is made of descriptors of its chain, and its status byte can be written. -/
theorem BlkRequest.ofChain_spec {chain : DescriptorChain} {mem : FlatMem} {req : BlkRequest}
    (h : ofChain chain mem = some req) :
    (∀ d ∈ req.data, d ∈ chain.descriptors) ∧ req.status ∈ chain.descriptors ∧
      req.status.isWriteOnly = true ∧ 1 ≤ req.status.len.toNat := by
  obtain ⟨head, descs⟩ := chain
  match descs, h with
  | hdr :: desc :: descs, h =>
    simp only [ofChain, Option.bind_eq_bind] at h
    split at h
    · cases h
    · obtain ⟨-, -, h⟩ := Option.bind_eq_some_iff.mp h
      obtain ⟨buf, -, h⟩ := Option.bind_eq_some_iff.mp h
      obtain ⟨header, -, h⟩ := Option.bind_eq_some_iff.mp h
      split at h
      · cases h
      · rename_i hstatus
        cases h
        simp only [Bool.or_eq_true, Bool.not_eq_true', beq_iff_eq, not_or] at hstatus
        have hlast : (desc :: descs).getLastD hdr ∈ desc :: descs := by
          rw [List.getLastD_cons, ← List.getLast_eq_getLastD]
          · exact List.getLast_mem _
          · exact List.cons_ne_nil _ _
        refine ⟨?_, ?_, by simpa using hstatus.1, ?_⟩
        · intro d hd
          exact List.mem_cons_of_mem hdr (List.dropLast_subset _ hd)
        · exact List.mem_cons_of_mem hdr hlast
        · have hne : ((desc :: descs).getLastD hdr).len.toNat ≠ 0 := fun hzero =>
            hstatus.2 (BitVec.eq_of_toNat_eq hzero)
          exact Nat.pos_of_ne_zero hne

namespace VirtioBlk

/-- The status byte can be written, and it is the last thing that was. -/
def Reports (mem : FlatMem) (req : BlkRequest) (writes : List ByteWrite) (status : BlkStatus) :
    Prop :=
  mem.Fits req.status.addr 1 ∧ writes.getLast? = some ⟨req.status.addr, [status.byte]⟩

/-- What handling a chain does to the disk and to guest memory. -/
structure Handles (blk : VirtioBlk) (chain : DescriptorChain) (mem : FlatMem) (used : BitVec 32)
    (blk' : VirtioBlk) (mem' : Recorded FlatMem) : Prop where
  size : blk'.disk.size = blk.disk.size
  diskKept : (∀ req, BlkRequest.ofChain chain mem = some req →
    req.header.reqType = .dataOut → blk.readOnly = true) → blk'.disk = blk.disk
  diskOutside : ∀ req, BlkRequest.ofChain chain mem = some req → ∀ x,
    ¬ (req.base ≤ x ∧ x < req.base + dataLength req.data) → blk'.disk.byte x = blk.disk.byte x
  store : mem'.store = mem.replay mem'.writes
  inside : ∀ w ∈ mem'.writes, InWritable chain.descriptors w
  used : (∀ req, BlkRequest.ofChain chain mem = some req → mem.Fits req.status.addr 1) →
    used = BitVec.ofNat 32 (Recorded.count mem'.writes)
  okIn : ∀ req, BlkRequest.ofChain chain mem = some req → Reports mem req mem'.writes .ok →
    req.header.reqType = .dataIn →
    mem'.writes = scattered blk.disk req.base req.data ++ [⟨req.status.addr, [BlkStatus.ok.byte]⟩]
  okId : ∀ req, BlkRequest.ofChain chain mem = some req → Reports mem req mem'.writes .ok →
    req.header.reqType = .getId → ∃ ws, BlkTransfer.WritesId blk.id req.data ws ∧
      mem'.writes = ws ++ [⟨req.status.addr, [BlkStatus.ok.byte]⟩]
  okOut : ∀ req, BlkRequest.ofChain chain mem = some req → Reports mem req mem'.writes .ok →
    req.header.reqType = .dataOut →
    blk'.disk.bytes req.base (dataLength req.data) = gathered mem req.data

variable {chain : DescriptorChain} {mem : FlatMem} {blk : VirtioBlk} {req : BlkRequest}

/-- Nothing is written and nothing changes if the chain is not accepted. -/
theorem handles_none (h : BlkRequest.ofChain chain mem = none) :
    Handles blk chain mem 0 blk ⟨mem, []⟩ where
  size := rfl
  diskKept := fun _ => rfl
  diskOutside := fun _ _ _ _ => rfl
  store := rfl
  inside := by simp
  used := fun _ => rfl
  okIn := fun req hreq => by simp [h] at hreq
  okId := fun req hreq => by simp [h] at hreq
  okOut := fun req hreq => by simp [h] at hreq

/-- The write of the status byte, if it lies inside memory. -/
def statusWrite (mem : FlatMem) (req : BlkRequest) (status : BlkStatus) : List ByteWrite :=
  if mem.Fits req.status.addr 1 then [⟨req.status.addr, [status.byte]⟩] else []

/-- An accepted request is served and its status byte written behind the rest. -/
theorem handleChain_of_request (blk : VirtioBlk) (h : BlkRequest.ofChain chain mem = some req) :
    ∃ status t ws mem', blk.serve req (⟨mem, []⟩ : Recorded FlatMem) = (status, t) ∧
      req.Served blk ⟨mem, []⟩ status t ws ∧
      blk.handleChain chain (⟨mem, []⟩ : Recorded FlatMem) =
        (t.written + 1, { blk with disk := t.disk }, mem') ∧
      Recorded.Wrote ⟨mem, []⟩ mem' (ws ++ statusWrite mem req status) := by
  obtain ⟨ws, hws⟩ := serve_spec blk req (⟨mem, []⟩ : Recorded FlatMem)
  have hreq : BlkRequest.ofChain chain (⟨mem, []⟩ : Recorded FlatMem) = some req := h
  generalize hserve : blk.serve req (⟨mem, []⟩ : Recorded FlatMem) = r at hws
  obtain ⟨status, t⟩ := r
  refine ⟨status, t, ws, (ByteStore.write t.mem req.status.addr [status.byte]).1, rfl, hws, ?_,
    hws.wrote.trans ?_⟩
  · simp only [handleChain, hreq, hserve]
  have hsame : t.mem.store.Fits req.status.addr 1 ↔ mem.Fits req.status.addr 1 := by
    rw [hws.wrote.store, FlatMem.Fits, FlatMem.Fits, FlatMem.replay_size]
  by_cases hfits : mem.Fits req.status.addr 1
  · have hroom : t.mem.store.Fits req.status.addr [status.byte].length := hsame.mpr hfits
    obtain ⟨mem', hwrite, hwrote⟩ := Recorded.write_of_fits hroom
    rw [statusWrite, if_pos hfits, hwrite]
    exact hwrote
  · rw [statusWrite, if_neg hfits, Recorded.write_of_not_fits fun h => hfits (hsame.mp h)]
    exact .refl _

theorem reports_iff {ws : List ByteWrite} {status reported : BlkStatus} :
    Reports mem req (ws ++ statusWrite mem req status) reported ↔
      mem.Fits req.status.addr 1 ∧ status = reported := by
  refine and_congr_right fun hfits => ?_
  rw [statusWrite, if_pos hfits, List.getLast?_concat]
  constructor
  · intro h
    have hbytes := congrArg ByteWrite.bytes (Option.some.inj h)
    exact BlkStatus.byte_injective (List.singleton_inj.mp hbytes)
  · rintro rfl
    rfl

theorem handles_chain (blk : VirtioBlk) (chain : DescriptorChain) (mem : FlatMem) :
    Handles blk chain mem (blk.handleChain chain (⟨mem, []⟩ : Recorded FlatMem)).1
      (blk.handleChain chain (⟨mem, []⟩ : Recorded FlatMem)).2.1
      (blk.handleChain chain (⟨mem, []⟩ : Recorded FlatMem)).2.2 := by
  cases hreq : BlkRequest.ofChain chain mem with
  | none =>
    have hnone : BlkRequest.ofChain chain (⟨mem, []⟩ : Recorded FlatMem) = none := hreq
    simp only [handleChain, hnone]
    exact handles_none hreq
  | some req =>
    obtain ⟨status, t, ws, mem', -, hserved, hhandle, hwrote⟩ :=
      handleChain_of_request blk hreq
    obtain ⟨hdata, hstatus, hwritable, hlen⟩ := BlkRequest.ofChain_spec hreq
    have hwrites : mem'.writes = ws ++ statusWrite mem req status := hwrote.writes
    have hsame : ∀ {req'}, BlkRequest.ofChain chain mem = some req' → req = req' := fun h =>
      Option.some.inj (hreq.symm.trans h)
    rw [hhandle]
    constructor
    · exact hserved.size
    · exact fun h => hserved.diskKept (h req hreq)
    · intro req' h
      cases hsame h
      exact hserved.diskOutside
    · exact hwrites ▸ hwrote.store
    · intro w hw
      rw [hwrites] at hw
      rcases List.mem_append.mp hw with hw | hw
      · obtain ⟨d, hd, hin⟩ := hserved.inside w hw
        exact ⟨d, hdata d hd, hin⟩
      · unfold statusWrite at hw
        split at hw
        · cases List.mem_singleton.mp hw
          exact ⟨req.status, hstatus, hwritable, rfl, hlen⟩
        · cases hw
    · intro hfits
      have hcount : Recorded.count mem'.writes = Recorded.count ws + 1 := by
        rw [hwrites, statusWrite, if_pos (hfits req hreq)]
        simp [Recorded.count]
      rw [hcount, hserved.written, BitVec.ofNat_add]
      rfl
    · intro req' h hok htype
      cases hsame h
      rw [hwrites] at hok ⊢
      obtain ⟨hfits, rfl⟩ := reports_iff.mp hok
      rw [hserved.okIn rfl htype, statusWrite, if_pos hfits]
    · intro req' h hok htype
      cases hsame h
      rw [hwrites] at hok ⊢
      obtain ⟨hfits, rfl⟩ := reports_iff.mp hok
      exact ⟨ws, hserved.okId rfl htype, by rw [statusWrite, if_pos hfits]⟩
    · intro req' h hok htype
      cases hsame h
      rw [hwrites] at hok
      exact (hserved.okOut (reports_iff.mp hok).2 htype).2.1

end VirtioBlk

/-- Buffers that touch neither each other nor the status byte. -/
def BlkRequest.Separate (req : BlkRequest) : Prop :=
  req.data.Pairwise (fun d d' =>
      VirtQueue.Apart d.addr.toNat d.len.toNat d'.addr.toNat d'.len.toNat) ∧
    ∀ d ∈ req.data, VirtQueue.Apart d.addr.toNat d.len.toNat req.status.addr.toNat 1

theorem pairwise_scattered {disk : FlatMem} {offset : Nat} {data : List Descriptor}
    (h : data.Pairwise fun d d' =>
      VirtQueue.Apart d.addr.toNat d.len.toNat d'.addr.toNat d'.len.toNat) :
    (scattered disk offset data).Pairwise FlatMem.Disjoint := by
  induction data generalizing offset with
  | nil => exact .nil
  | cons d ds ih =>
    obtain ⟨hd, hds⟩ := List.pairwise_cons.mp h
    refine List.pairwise_cons.mpr ⟨fun w hw => ?_, ih hds⟩
    obtain ⟨d', hd', haddr, hlen⟩ := mem_scattered hw
    simpa [FlatMem.Disjoint, VirtQueue.Apart, haddr, hlen] using hd d' hd'

theorem BlkRequest.Separate.disjoint {req : BlkRequest} (h : req.Separate) (disk : FlatMem)
    (status : BlkStatus) :
    List.Pairwise FlatMem.Disjoint
      (scattered disk req.base req.data ++ [⟨req.status.addr, [status.byte]⟩]) := by
  refine List.pairwise_append.mpr ⟨pairwise_scattered h.1, List.pairwise_singleton _ _, ?_⟩
  intro w hw v hv
  cases List.mem_singleton.mp hv
  obtain ⟨d, hd, haddr, hlen⟩ := mem_scattered hw
  simpa [FlatMem.Disjoint, VirtQueue.Apart, haddr, hlen] using h.2 d hd

namespace VirtioBlk

variable {chain : DescriptorChain} {mem : FlatMem} {blk : VirtioBlk} {req : BlkRequest}

/-- A request returned bytes: they were written to its buffers in order, and they are there
afterwards unless buffers overlap. -/
structure ReadsBack (bytes : List Byte) (mem : FlatMem) (req : BlkRequest)
    (after : Recorded FlatMem) : Prop where
  ok : 0 < dataLength req.data → Reports mem req after.writes .ok
  written : after.writes.dropLast.flatMap (·.bytes) = bytes
  memory : req.Separate → gathered after.store req.data = bytes

/-- What was written to the disk by one request is returned by a later one, whatever the guest
did to its memory in between and however the buffers are cut. -/
def RoundTrips (blk : VirtioBlk) : Prop :=
  ∀ (first second : DescriptorChain) (mem mem' : FlatMem) (out req : BlkRequest),
    BlkRequest.ofChain first mem = some out → out.header.reqType = .dataOut →
    Reports mem out (blk.handleChain first (⟨mem, []⟩ : Recorded FlatMem)).2.2.writes .ok →
    BlkRequest.ofChain second mem' = some req → req.header.reqType = .dataIn →
    req.header.sector = out.header.sector → dataLength req.data = dataLength out.data →
    (∀ d ∈ req.data, d.isWriteOnly = true ∧ mem'.Fits d.addr d.len.toNat) →
    mem'.Fits req.status.addr 1 →
    ReadsBack (gathered mem out.data) mem' req
      ((blk.handleChain first (⟨mem, []⟩ : Recorded FlatMem)).2.1.handleChain second
        (⟨mem', []⟩ : Recorded FlatMem)).2.2

theorem serve_in_ok (blk : VirtioBlk) (htype : req.header.reqType = .dataIn)
    (hdata : ∀ d ∈ req.data, d.isWriteOnly = true ∧ mem.Fits d.addr d.len.toNat)
    (hdisk : req.base + dataLength req.data ≤ blk.disk.size)
    (haddr : req.base + dataLength req.data < 2 ^ 64) :
    (blk.serve req (⟨mem, []⟩ : Recorded FlatMem)).1 = .ok := by
  have hbase : ¬ 2 ^ 64 ≤ req.header.sector.toNat * 512 :=
    Nat.not_le.mpr (Nat.lt_of_le_of_lt (Nat.le_add_right _ _) haddr)
  simp only [serve, htype, BlkTransfer.transfer, if_neg hbase]
  exact BlkTransfer.moveBuffers_in_ok hdata hdisk haddr

theorem readsBack_nil {ws : List ByteWrite} {status : BlkStatus} {after : Recorded FlatMem}
    (hzero : dataLength req.data = 0) (hinside : ∀ w ∈ ws, InWritable req.data w)
    (hwrites : after.writes = ws ++ [⟨req.status.addr, [status.byte]⟩]) :
    ReadsBack [] mem req after where
  ok := fun hpos => absurd hzero (Nat.ne_of_gt hpos)
  written := by
    rw [hwrites, List.dropLast_concat, List.flatMap_eq_nil_iff]
    intro w hw
    obtain ⟨d, hd, -, -, hlen⟩ := hinside w hw
    have hle := len_le_dataLength hd
    exact List.eq_nil_of_length_eq_zero (by omega)
  memory := fun _ => List.eq_nil_of_length_eq_zero ((length_gathered _ _).trans hzero)

theorem roundTrips (blk : VirtioBlk) : blk.RoundTrips := by
  intro first second mem mem' out req hout hoType hok hreq htype hsector hlength hdata hfits
  obtain ⟨status, t, ws, after, -, hserved, hhandle, hwrote⟩ :=
    handleChain_of_request blk hout
  have hwrites : after.writes = ws ++ statusWrite mem out status := hwrote.writes
  rw [hhandle] at hok ⊢
  have hstatus : status = .ok := (reports_iff.mp (hwrites ▸ hok)).2
  obtain ⟨-, hdisk, hroom⟩ := hserved.okOut hstatus hoType
  obtain ⟨status', t', ws', after', hserve', hserved', hhandle', hwrote'⟩ :=
    handleChain_of_request { blk with disk := t.disk } hreq
  have hwrites' : after'.writes = ws' ++ [⟨req.status.addr, [status'.byte]⟩] := by
    rw [hwrote'.writes, statusWrite, if_pos hfits]
    rfl
  have hstore : after'.store = mem'.replay (ws' ++ [⟨req.status.addr, [status'.byte]⟩]) := by
    rw [hwrote'.store, statusWrite, if_pos hfits]
  have hbase : req.base = out.base := by rw [BlkRequest.base, hsector, BlkRequest.base]
  rw [hhandle']
  rcases Nat.eq_zero_or_pos (dataLength req.data) with hzero | hpos
  · have hnil : gathered mem out.data = [] :=
      List.eq_nil_of_length_eq_zero ((length_gathered _ _).trans (hlength ▸ hzero))
    rw [hnil]
    exact readsBack_nil hzero hserved'.inside hwrites'
  · have hne : out.data ≠ [] := by
      rintro hnil
      rw [hlength, hnil] at hpos
      exact Nat.lt_irrefl 0 hpos
    obtain ⟨hend, haddr⟩ := hroom hne
    have hok' : status' = .ok := by
      have hsize : t.disk.size = blk.disk.size := hserved.size
      have hserve := serve_in_ok { blk with disk := t.disk } htype hdata
        (by rw [hbase, hlength]; exact hsize ▸ hend) (by rw [hbase, hlength]; exact haddr)
      rwa [hserve'] at hserve
    have hws : ws' = scattered t.disk req.base req.data := hserved'.okIn hok' htype
    have hbytes : t.disk.bytes req.base (dataLength req.data) = gathered mem out.data := by
      rw [hbase, hlength, hdisk]
    subst hok' hws
    refine ⟨fun _ => ⟨hfits, ?_⟩, ?_, fun hsep => ?_⟩
    · rw [hwrites', List.getLast?_concat]
    · rw [hwrites', List.dropLast_concat, bytes_scattered, hbytes]
    · rw [← hbytes]
      refine gathered_of_scattered fun w hw => ?_
      rw [hstore]
      exact FlatMem.bytes_replay_of_disjoint (hsep.disjoint _ _) (List.mem_append_left _ hw)

/-- For every disk, chain and guest memory the handler keeps to the request, and later reads
return what was written. -/
theorem handleChain_handles_roundTrips (blk : VirtioBlk) :
    (∀ chain (mem : FlatMem),
      Handles blk chain mem (blk.handleChain chain (⟨mem, []⟩ : Recorded FlatMem)).1
        (blk.handleChain chain (⟨mem, []⟩ : Recorded FlatMem)).2.1
        (blk.handleChain chain (⟨mem, []⟩ : Recorded FlatMem)).2.2) ∧
      blk.RoundTrips :=
  ⟨blk.handles_chain, blk.roundTrips⟩

/-- A request of some type at address 0, with sixteen bytes to be written and a status byte. -/
def requestMem (reqType : Byte) : FlatMem := ⟨64, fun x => if x = 0 then reqType else 0⟩

def requestChain (status : Word) : DescriptorChain :=
  ⟨0, [⟨0, 16, 1, 1⟩, ⟨16, 16, 3, 2⟩, ⟨status, 1, 2, 0⟩]⟩

/-- A flush reports success and leaves its buffer alone; a status byte outside memory is counted
although it is not written. -/
theorem flush_ok_untransferred :
    ((BlkRequest.ofChain (requestChain 32) (requestMem 4)).map fun req =>
        dataLength req.data) = some 16 ∧
      ((VirtioBlk.new ⟨512, fun _ => 0⟩).handleChain (requestChain 32)
        (⟨requestMem 4, []⟩ : Recorded FlatMem)).2.2.writes = [⟨32, [BlkStatus.ok.byte]⟩] ∧
      ((VirtioBlk.new ⟨512, fun _ => 0⟩).handleChain (requestChain 64)
        (⟨requestMem 4, []⟩ : Recorded FlatMem)).1 = 1 ∧
      ((VirtioBlk.new ⟨512, fun _ => 0⟩).handleChain (requestChain 64)
        (⟨requestMem 4, []⟩ : Recorded FlatMem)).2.2.writes = [] := by
  decide

end VirtioBlk

end Rax.Devices

import Rax.Devices.Nvme
import Rax.Lib.LeBytes
import Rax.Lib.SlotRing

/-!
# Completions of NVMe commands

What a host may rely on when it takes completions from the queues: one for each entry that was
consumed, in the queue its submission queue is bound to, with the command's identifier, the
submission queue's identifier and head, and the phase of the pass, in a slot that the host has read
before. The host's side is a ring of slots for each completion queue, kept from the events of the
run alone.

The admin queues keep to it as long as the host leaves room. I/O queues do not: the head they report
is the one from before the doorbell, and the queue is the first one bound to the completion queue.
-/

namespace Rax.Devices

open Nvme

/-! ## Runs of a controller -/

namespace NvmeQueue

variable {q : NvmeQueue}

end NvmeQueue

namespace NvmeController

variable {μ : Type} {s s' : NvmeController μ}

end NvmeController

/-- What happens to a controller: an access to its registers, a change of memory by the guest, and
the acknowledgement of its interrupt. -/
inductive NvmeOp (μ : Type) where
  | write (addr : Word) (data : List Byte)
  | host (mem : μ)
  | clearInterrupt

namespace NvmeController

variable {μ : Type} {s : NvmeController μ}

def new (base : Word) (mem : μ) (disk : FlatMem) : NvmeController μ := { base, mem, disk }

variable [ByteStore μ]

def step (s : NvmeController μ) : NvmeOp μ → List NvmeEvent × NvmeController μ
  | .write addr data => s.write addr data
  | .host mem => ([], { s with mem })
  | .clearInterrupt => ([], { s with interruptPending := false })

def run (s : NvmeController μ) : List (NvmeOp μ) → List NvmeEvent × NvmeController μ
  | [] => ([], s)
  | op :: ops => ((s.step op).1 ++ ((s.step op).2.run ops).1, ((s.step op).2.run ops).2)

end NvmeController

/-! ## The host's side -/

/-- The fields a host reads from a completion entry. -/
structure CompletionEntry where
  cid : BitVec 16
  phase : Bool
  sqHead : BitVec 16
  sqid : BitVec 16
  deriving DecidableEq

def CompletionEntry.parse (buf : List Byte) : CompletionEntry where
  cid := (SubmissionEntry.dword buf 3).setWidth 16
  phase := (SubmissionEntry.dword buf 3).getLsbD 16
  sqHead := (SubmissionEntry.dword buf 2).setWidth 16
  sqid := (SubmissionEntry.dword buf 2).extractLsb' 16 16

/-- A completion queue as its host sees it. -/
structure HostQueue extends SlotRing where
  base : Word

namespace HostQueue

def afterPost (q : HostQueue) : HostQueue := ⟨q.fill, q.base⟩

def afterRead (q : HostQueue) (head : Nat) : HostQueue := ⟨q.read head, q.base⟩

end HostQueue

/-- The completion queues by number. -/
abbrev HostQueues := Nat → HostQueue

namespace HostQueues

def none : HostQueues := fun _ => { size := 0, base := 0 }

def update (qs : HostQueues) (cqid : Nat) (q : HostQueue) : HostQueues :=
  fun i => if i = cqid then q else qs i

/-- What the host knows after an event. -/
def observe (qs : HostQueues) : NvmeEvent → HostQueues
  | .created cqid base size => qs.update cqid { size, base }
  | .advanced cqid head => qs.update cqid ((qs cqid).afterRead head)
  | .consumed c =>
    match c.posted with
    | some p => qs.update p.cqid (qs p.cqid).afterPost
    | _ => qs

def observeAll (qs : HostQueues) (events : List NvmeEvent) : HostQueues := events.foldl observe qs

end HostQueues

/-- The entry `p`, posted for `c`, is what the host expects next in the queue, and none that it has
not read is lost to it. -/
structure Posted.Answers (p : Posted) (c : Consumed) (q : HostQueue) : Prop where
  cqid : p.cqid = c.cqid
  accepted : p.accepted = true
  slot : p.slot = q.slot
  addr : p.addr = cqeAddr q.base q.slot
  cid : (CompletionEntry.parse p.bytes).cid = c.cid
  sqid : (CompletionEntry.parse p.bytes).sqid.toNat = c.sqid
  sqHead : (CompletionEntry.parse p.bytes).sqHead.toNat = c.head
  phase : (CompletionEntry.parse p.bytes).phase = q.evenPass
  unread : p.slot ∉ q.held

/-- An entry is answered by one completion; other events ask for nothing. -/
def HostQueues.Answered (qs : HostQueues) : NvmeEvent → Prop
  | .consumed c => ∃ p, c.posted = some p ∧ p.Answers c (qs c.cqid)
  | _ => True

instance (p : Posted) (c : Consumed) (q : HostQueue) : Decidable (p.Answers c q) :=
  decidable_of_iff
    (p.cqid = c.cqid ∧ p.accepted = true ∧ p.slot = q.slot ∧ p.addr = cqeAddr q.base q.slot ∧
      (CompletionEntry.parse p.bytes).cid = c.cid ∧
      (CompletionEntry.parse p.bytes).sqid.toNat = c.sqid ∧
      (CompletionEntry.parse p.bytes).sqHead.toNat = c.head ∧
      (CompletionEntry.parse p.bytes).phase = q.evenPass ∧ p.slot ∉ q.held)
    ⟨fun ⟨h1, h2, h3, h4, h5, h6, h7, h8, h9⟩ => ⟨h1, h2, h3, h4, h5, h6, h7, h8, h9⟩,
      fun h => ⟨h.1, h.2, h.3, h.4, h.5, h.6, h.7, h.8, h.9⟩⟩

instance (qs : HostQueues) (event : NvmeEvent) : Decidable (qs.Answered event) :=
  match event with
  | .created .. => isTrue trivial
  | .advanced .. => isTrue trivial
  | .consumed c =>
    match h : c.posted with
    | some p => decidable_of_iff (p.Answers c (qs c.cqid))
        ⟨fun ha => ⟨p, h, ha⟩, fun ⟨_, hp, ha⟩ => Option.some.inj (h.symm.trans hp) ▸ ha⟩
    | none => isFalse fun ⟨_, hp, _⟩ => Option.some_ne_none _ (hp.symm.trans h)

/-- Every entry that is consumed in a run is answered. -/
def HostQueues.AllAnswered : HostQueues → List NvmeEvent → Prop
  | _, [] => True
  | qs, event :: events => qs.Answered event ∧ (qs.observe event).AllAnswered events

namespace HostQueues

instance decidableAllAnswered : (qs : HostQueues) → (events : List NvmeEvent) →
    Decidable (qs.AllAnswered events)
  | _, [] => isTrue trivial
  | qs, event :: events =>
    have := decidableAllAnswered (qs.observe event) events
    inferInstanceAs (Decidable (_ ∧ _))

variable {qs : HostQueues}

@[simp] theorem observeAll_nil : qs.observeAll [] = qs := rfl

end HostQueues

/-! ## Runs -/

namespace NvmeController

variable {μ : Type} [BoundedStore μ]

/-- How many entries an admin tail doorbell makes available. -/
def adminPending (s : NvmeController μ) (tail : Nat) : Nat :=
  slotsTo s.adminSq.size s.adminSq.head tail

/-- How many slots of the admin completion queue are free, with one kept between the two ends. -/
def adminRoom (s : NvmeController μ) : Nat :=
  slotsTo s.adminCq.size ((s.adminCq.tail + 1) % s.adminCq.size) s.adminCq.head

/-- The next `n` slots of the admin completion queue are in memory. -/
def AdminSlotsInBounds (s : NvmeController μ) (n : Nat) : Prop :=
  ∀ k < n, BoundedStore.inBounds s.mem
    (cqeAddr s.adminCq.base ((s.adminCq.tail + k) % s.adminCq.size)) cqeSize = true

/-- The completions of the entries that become available fit. -/
def AdminFits (s : NvmeController μ) (tail : Nat) : Prop :=
  s.adminSq.acceptsDoorbell tail = true →
    s.adminPending tail ≤ s.adminRoom ∧ s.AdminSlotsInBounds (s.adminPending tail)

/-- No entry of an I/O queue is there to be consumed. -/
def IoIdle (s : NvmeController μ) (sqid tail : Nat) : Prop :=
  ∀ sq ∈ s.ioSqs[sqid]?, sq.acceptsDoorbell tail = true →
    sq.head = tail ∨ s.readSqe sq.base sq.head = none

/-- A write of a tail doorbell for which the completions are as they should be. -/
def SafeWrite (s : NvmeController μ) (offset value : Nat) : Prop :=
  0x1000 ≤ offset → doorbellIndex offset % 2 = 0 →
    if doorbellIndex offset / 2 = 0 then s.AdminFits value
    else s.IoIdle (doorbellIndex offset / 2) value

instance (s : NvmeController μ) (n : Nat) : Decidable (s.AdminSlotsInBounds n) :=
  inferInstanceAs (Decidable (∀ k < n, _ = true))

instance (s : NvmeController μ) (tail : Nat) : Decidable (s.AdminFits tail) :=
  inferInstanceAs (Decidable (_ → _ ∧ _))

instance (s : NvmeController μ) (sqid tail : Nat) : Decidable (s.IoIdle sqid tail) :=
  inferInstanceAs (Decidable (∀ sq ∈ s.ioSqs[sqid]?, _ → _ ∨ _))

instance (s : NvmeController μ) (offset value : Nat) : Decidable (s.SafeWrite offset value) :=
  inferInstanceAs (Decidable (0x1000 ≤ offset → doorbellIndex offset % 2 = 0 →
    if doorbellIndex offset / 2 = 0 then s.AdminFits value
    else s.IoIdle (doorbellIndex offset / 2) value))

def Safe (s : NvmeController μ) : NvmeOp μ → Prop
  | .write addr data => s.SafeWrite (s.alignedOffset addr) (s.merged addr data).toNat
  | _ => True

instance (s : NvmeController μ) (op : NvmeOp μ) : Decidable (s.Safe op) :=
  match op with
  | .write _ _ => inferInstanceAs (Decidable (s.SafeWrite _ _))
  | .host _ => isTrue trivial
  | .clearInterrupt => isTrue trivial

def SafeRun (s : NvmeController μ) : List (NvmeOp μ) → Prop
  | [] => True
  | op :: ops => s.Safe op ∧ (s.step op).2.SafeRun ops

instance decidableSafeRun : (s : NvmeController μ) → (ops : List (NvmeOp μ)) →
    Decidable (s.SafeRun ops)
  | _, [] => isTrue trivial
  | s, op :: ops =>
    have := decidableSafeRun (s.step op).2 ops
    inferInstanceAs (Decidable (_ ∧ _))

/-! ## What commands leave alone -/

/-- The admin queues and the bounds of memory are those of before. -/
structure SameAdmin (s s' : NvmeController μ) : Prop where
  adminSq : s'.adminSq = s.adminSq
  adminCq : s'.adminCq = s.adminCq
  inBounds : BoundedStore.inBounds s'.mem = BoundedStore.inBounds s.mem

theorem SameAdmin.refl (s : NvmeController μ) : SameAdmin s s := ⟨rfl, rfl, rfl⟩

theorem sameAdmin_adminIdentify (s : NvmeController μ) (e : SubmissionEntry) :
    SameAdmin s (s.adminIdentify e).1 := by
  rw [adminIdentify]
  split
  · exact .refl s
  · have hbounds := BoundedStore.inBounds_write s.mem e.prp1
    split <;> rename_i hwrite <;> exact ⟨rfl, rfl, by rw [← hbounds, hwrite]⟩

theorem sameAdmin_execAdmin (s : NvmeController μ) (e : SubmissionEntry) :
    SameAdmin s (s.execAdmin e).1 := by
  rw [execAdmin]
  split
  · exact sameAdmin_adminIdentify s e
  · rw [adminCreateIoCq]
    split <;> exact ⟨rfl, rfl, rfl⟩
  · rw [adminCreateIoSq]
    split <;> exact ⟨rfl, rfl, rfl⟩
  · rw [adminDeleteIoCq]
    split <;> exact ⟨rfl, rfl, rfl⟩
  · rw [adminDeleteIoSq]
    split <;> exact ⟨rfl, rfl, rfl⟩
  · rw [adminSetFeatures, adminFeatures]
    split <;> exact .refl s
  · rw [adminGetFeatures, adminFeatures]
    split <;> exact .refl s
  · exact .refl s

end NvmeController

namespace Completion

theorem length_bytes (c : Completion) : c.bytes.length = cqeSize := by
  simp [bytes, Word.toLeBytes, cqeSize]

end Completion

namespace NvmeController

variable {μ : Type} {s s' : NvmeController μ} {qs : HostQueues} {q : HostQueue}

/-! ## The admin queues -/

/-- A completion queue of the controller and the host's view of it. -/
structure Shows (cq : NvmeQueue) (q : HostQueue) : Prop where
  base : cq.base = q.base
  size : cq.size = q.size
  head : cq.head = q.head
  tail : cq.tail = q.slot
  phase : cq.phase = q.evenPass
  windowed : q.Windowed

theorem Shows.size_pos {cq : NvmeQueue} (h : Shows cq q) : 0 < q.size :=
  Nat.zero_lt_of_lt h.windowed.head_lt

theorem Shows.advanceTail {cq : NvmeQueue} (h : Shows cq q)
    (hfree : (q.slot + 1) % q.size ≠ q.head) :
    Shows (advanceTail cq) q.afterPost where
  base := h.base
  size := h.size
  head := h.head
  tail := by
    change (cq.tail + 1) % cq.size = q.fill.slot
    rw [SlotRing.slot_fill, h.tail, h.size]
  phase := by
    change (if (cq.tail + 1) % cq.size = 0 then !cq.phase else cq.phase) = q.fill.evenPass
    rw [SlotRing.evenPass_fill h.size_pos, h.tail, h.size, h.phase]
  windowed := h.windowed.fill hfree

theorem Shows.read {cq : NvmeQueue} (h : Shows cq q) {head : Nat} (hhead : head < cq.size) :
    Shows { cq with head } (q.afterRead head) where
  base := h.base
  size := h.size
  head := rfl
  tail := h.tail
  phase := h.phase
  windowed := h.windowed.read (h.size ▸ hhead)

/-- The admin queues of a controller, with the host's view of the completion queue. -/
structure Tracks (s : NvmeController μ) (q : HostQueue) : Prop where
  active : s.adminSq.active = s.adminCq.active
  size_le : s.adminSq.size ≤ 4096
  head_lt : s.adminSq.active = true → s.adminSq.head < s.adminSq.size
  shows : s.adminCq.active = true → Shows s.adminCq q

theorem Tracks.of_same (h : Tracks s q) (hsq : s'.adminSq = s.adminSq)
    (hcq : s'.adminCq = s.adminCq) : Tracks s' q where
  active := by rw [hsq, hcq, h.active]
  size_le := by rw [hsq]; exact h.size_le
  head_lt := by rw [hsq]; exact h.head_lt
  shows := by rw [hcq]; exact h.shows

theorem adminRoom_eq (h : Shows s.adminCq q) : s.adminRoom = q.room := by
  rw [adminRoom, SlotRing.room, h.tail, h.size, h.head]

/-! ## Enable and reset -/

theorem shows_new (base : Word) {size : Nat} (hsize : 0 < size) :
    Shows { base, size, phase := true, active := true } { size, base } where
  base := rfl
  size := rfl
  head := rfl
  tail := (Nat.zero_mod size).symm
  phase := by
    change true = (0 / size % 2 == 0)
    rw [Nat.zero_div]
    rfl
  windowed := SlotRing.windowed_of_empty hsize rfl

/-- A step that is answered and keeps the host's view. -/
def Keeps (qs : HostQueues) (r : List NvmeEvent × NvmeController μ) : Prop :=
  qs.AllAnswered r.1 ∧ Tracks r.2 (qs.observeAll r.1 0)

variable [BoundedStore μ]

/-- The controller when the completion of an admin command is posted. -/
def executed (s : NvmeController μ) (e : SubmissionEntry) : NvmeController μ :=
  (s.execAdmin e).1.advanceAdminHead

theorem executed_adminSq (s : NvmeController μ) (e : SubmissionEntry) :
    (s.executed e).adminSq =
      { s.adminSq with head := (s.adminSq.head + 1) % s.adminSq.size } := by
  rw [executed, advanceAdminHead, (sameAdmin_execAdmin s e).adminSq]

theorem executed_adminCq (s : NvmeController μ) (e : SubmissionEntry) :
    (s.executed e).adminCq = s.adminCq := (sameAdmin_execAdmin s e).adminCq

theorem Tracks.executed (h : Tracks s q) (e : SubmissionEntry) : Tracks (s.executed e) q where
  active := by rw [executed_adminSq, executed_adminCq]; exact h.active
  size_le := by rw [executed_adminSq]; exact h.size_le
  head_lt := by
    rw [executed_adminSq]
    intro hactive
    exact Nat.mod_lt _ (Nat.zero_lt_of_lt (h.head_lt hactive))
  shows := by rw [executed_adminCq]; exact h.shows

/-- A turn of the admin loop answers its entry and moves both queues on by one. -/
structure Turned (s s' : NvmeController μ) (qs : HostQueues) (events : List NvmeEvent) : Prop where
  answered : qs.AllAnswered events
  tracks : Tracks s' (qs.observeAll events 0)
  adminSq : s'.adminSq = { s.adminSq with head := (s.adminSq.head + 1) % s.adminSq.size }
  adminCq : s'.adminCq = advanceTail s.adminCq
  inBounds : BoundedStore.inBounds s'.mem = BoundedStore.inBounds s.mem

/-- With the entries that are pending, the turn also uses up one slot. -/
theorem Turned.room {events : List NvmeEvent} (ht : Turned s s' qs events)
    (h : Tracks s (qs 0)) (hactive : s.adminSq.active = true) (hroom : 0 < s.adminRoom) :
    s.adminRoom = s'.adminRoom + 1 := by
  have hshow := h.shows (h.active ▸ hactive)
  have hpos := hshow.windowed.room_pos (adminRoom_eq hshow ▸ hroom)
  have hnext := adminRoom_eq (s := s') (by rw [ht.adminCq]; exact hshow.advanceTail hpos.1)
  rw [adminRoom_eq hshow, hnext]
  exact hpos.2

theorem Turned.slots {events : List NvmeEvent} (ht : Turned s s' qs events) {n : Nat}
    (h : s.AdminSlotsInBounds (n + 1)) : s'.AdminSlotsInBounds n := by
  intro k hk
  have hslot := h (k + 1) (by omega)
  rw [ht.inBounds, ht.adminCq]
  change BoundedStore.inBounds s.mem (cqeAddr s.adminCq.base
    (((s.adminCq.tail + 1) % s.adminCq.size + k) % s.adminCq.size)) cqeSize = true
  rw [Nat.mod_add_mod, show s.adminCq.tail + 1 + k = s.adminCq.tail + (k + 1) by omega]
  exact hslot

end NvmeController

end Rax.Devices

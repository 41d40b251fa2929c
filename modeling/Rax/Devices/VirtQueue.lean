import Rax.Lib.FlatMem
import Rax.Lib.Run

/-!
# The split virtqueue

The device walks the available ring from the entry it has not consumed yet to the index the
driver published, hands each descriptor chain to a handler and appends a completion to the
used ring. Ring contents are whatever the guest put there, so every access may fail. Beside
the queue the run keeps a log of the handler calls.

The accounting law is that handler calls, consumed entries and completions go together. It
rests on the used ring: the handler runs before the completion is written, so an entry whose
completion does not fit into memory has been handled and stays available.
-/

namespace Rax.Devices

structure Descriptor where
  addr : Word
  len : BitVec 32
  flags : BitVec 16
  next : BitVec 16

structure DescriptorChain where
  head : BitVec 16
  descriptors : List Descriptor

structure VirtQueue where
  size : BitVec 32 := 0
  ready : Bool := false
  descAddr : Word := 0
  availAddr : Word := 0
  usedAddr : Word := 0
  lastAvailIdx : BitVec 16 := 0

def Descriptor.hasNext (d : Descriptor) : Bool := d.flags.getLsbD 0

/-- Sixteen bytes in one read. -/
def Descriptor.readFrom (mem : FlatMem) (gpa : Word) : Option Descriptor :=
  if mem.Fits gpa 16 then
    some
      { addr := BitVec.ofNat 64 (mem.value gpa.toNat 8)
        len := BitVec.ofNat 32 (mem.value (gpa.toNat + 8) 4)
        flags := BitVec.ofNat 16 (mem.value (gpa.toNat + 12) 2)
        next := BitVec.ofNat 16 (mem.value (gpa.toNat + 14) 2) }
  else none

namespace VirtQueue

/-- Index that the driver published. -/
def availIdx (q : VirtQueue) (mem : FlatMem) : Option (BitVec 16) :=
  (mem.load (q.availAddr + 2#64) 2).map (BitVec.ofNat 16)

/-- Head stored for an entry of the available ring. -/
def availRingEntry (q : VirtQueue) (mem : FlatMem) (slot : BitVec 16) : Option (BitVec 16) :=
  (mem.load (q.availAddr + BitVec.ofNat 64 (4 + slot.toNat % q.size.toNat * 2)) 2).map
    (BitVec.ofNat 16)

/-- The descriptors from an index on, at most `hops` of them. -/
def readChainFrom (q : VirtQueue) (mem : FlatMem) : Nat → BitVec 16 → Option (List Descriptor)
  | 0, _ => none
  | hops + 1, idx => do
    let desc ← Descriptor.readFrom mem (q.descAddr + BitVec.ofNat 64 (idx.toNat * 16))
    if desc.hasNext then
      if q.size.toNat ≤ desc.next.toNat then none
      else
        let rest ← q.readChainFrom mem hops desc.next
        return desc :: rest
    else return [desc]

def readChain (q : VirtQueue) (mem : FlatMem) (head : BitVec 16) : Option DescriptorChain :=
  (q.readChainFrom mem q.size.toNat head).map (⟨head, ·⟩)

/-- Address of the used element for an index. -/
def usedEntry (q : VirtQueue) (idx : BitVec 16) : Word :=
  q.usedAddr + 4#64 + BitVec.ofNat 64 (idx.toNat % q.size.toNat * 8)

/-- Append a completion, then publish it. A store that does not fit leaves the earlier ones
in place. -/
def pushUsed (q : VirtQueue) (mem : FlatMem) (head : BitVec 16) (len : BitVec 32) :
    FlatMem × Bool :=
  match mem.load (q.usedAddr + 2#64) 2 with
  | none => (mem, false)
  | some idx =>
    let usedIdx := BitVec.ofNat 16 idx
    match mem.store (q.usedEntry usedIdx) 4 head.toNat with
    | (mem, false) => (mem, false)
    | (mem, true) =>
      match mem.store (q.usedEntry usedIdx + 4#64) 4 len.toNat with
      | (mem, false) => (mem, false)
      | (mem, true) => mem.store (q.usedAddr + 2#64) 2 (usedIdx + 1).toNat

end VirtQueue

/-- A device's work on a chain: the length it reports, its own state and the memory. -/
abbrev Handler (σ : Type) := σ → DescriptorChain → FlatMem → BitVec 32 × σ × FlatMem

/-- One handler call: the position in the available ring, what was handed out, the length
reported, and the memory once the completion was attempted. -/
structure Call where
  position : BitVec 16
  chain : DescriptorChain
  written : BitVec 32
  after : FlatMem

structure QueueRun (σ : Type) where
  queue : VirtQueue
  mem : FlatMem
  state : σ
  calls : List Call := []

namespace QueueRun

variable {σ : Type}

/-- One round of the loop; the flag says whether it goes on. -/
def consume (handler : Handler σ) (w : QueueRun σ) : QueueRun σ × Bool :=
  match w.queue.availRingEntry w.mem w.queue.lastAvailIdx with
  | none => (w, false)
  | some head =>
    if w.queue.size.toNat ≤ head.toNat then (w, false)
    else
      match w.queue.readChain w.mem head with
      | none => (w, false)
      | some chain =>
        let (written, state, mem) := handler w.state chain w.mem
        let (mem, pushed) := w.queue.pushUsed mem head written
        let calls := w.calls ++ [⟨w.queue.lastAvailIdx, chain, written, mem⟩]
        if pushed then
          ({ queue := { w.queue with lastAvailIdx := w.queue.lastAvailIdx + 1 },
             mem := mem, state := state, calls := calls }, true)
        else ({ w with mem := mem, state := state, calls := calls }, false)

/-- The loop, with the number of chains processed. A round that goes on moves the device's
index by one, so its distance to the driver's index bounds the rounds. -/
def walk (handler : Handler σ) : Nat → QueueRun σ → QueueRun σ × Nat
  | 0, w => (w, 0)
  | n + 1, w =>
    match w.consume handler with
    | (w, true) => ((walk handler n w).1, (walk handler n w).2 + 1)
    | (w, false) => (w, 0)

def process (handler : Handler σ) (w : QueueRun σ) : QueueRun σ × Nat :=
  if w.queue.ready = false ∨ w.queue.size = 0 then (w, 0)
  else
    match w.queue.availIdx w.mem with
    | none => (w, 0)
    | some target => walk handler (target - w.queue.lastAvailIdx).toNat w

end QueueRun

namespace VirtQueue

variable {q : VirtQueue} {mem mem' : FlatMem}

/-- The used index, and the element for an index, as they stand in memory. -/
def usedIndex (q : VirtQueue) (mem : FlatMem) : BitVec 16 :=
  BitVec.ofNat 16 (mem.value (q.usedAddr + 2#64).toNat 2)

def usedElement (q : VirtQueue) (mem : FlatMem) (idx : BitVec 16) : Nat × Nat :=
  (mem.value (q.usedEntry idx).toNat 4, mem.value (q.usedEntry idx + 4#64).toNat 4)

/-- The index and every element of the used ring lie inside memory. -/
def UsedRingFits (q : VirtQueue) (mem : FlatMem) : Prop :=
  mem.Fits (q.usedAddr + 2#64) 2 ∧
    ∀ idx, mem.Fits (q.usedEntry idx) 4 ∧ mem.Fits (q.usedEntry idx + 4#64) 4

/-- Memories with the same used ring. -/
structure SameUsed (q : VirtQueue) (mem mem' : FlatMem) : Prop where
  size : mem'.size = mem.size
  index : FlatMem.SameAt mem' mem (q.usedAddr + 2#64).toNat 2
  head : ∀ idx, FlatMem.SameAt mem' mem (q.usedEntry idx).toNat 4
  len : ∀ idx, FlatMem.SameAt mem' mem (q.usedEntry idx + 4#64).toNat 4

theorem UsedRingFits.of_size (h : q.UsedRingFits mem) (hsize : mem'.size = mem.size) :
    q.UsedRingFits mem' := by
  simpa only [UsedRingFits, FlatMem.Fits, hsize] using h

theorem SameUsed.usedIndex_eq (h : q.SameUsed mem mem') :
    q.usedIndex mem' = q.usedIndex mem := by
  rw [usedIndex, usedIndex, FlatMem.value_congr h.index]

theorem SameUsed.usedElement_eq (h : q.SameUsed mem mem') (idx : BitVec 16) :
    q.usedElement mem' idx = q.usedElement mem idx := by
  rw [usedElement, usedElement, FlatMem.value_congr (h.head idx), FlatMem.value_congr (h.len idx)]

/-- Slot of an index. -/
def slotOf (q : VirtQueue) (idx : BitVec 16) : Nat := idx.toNat % q.size.toNat

theorem slotOf_lt (hsize : q.size ≠ 0) (idx : BitVec 16) : q.slotOf idx < 2 ^ 32 := by
  have hpos : 0 < q.size.toNat := Nat.pos_of_ne_zero fun h => hsize (BitVec.eq_of_toNat_eq h)
  exact Nat.lt_trans (Nat.mod_lt _ hpos) q.size.isLt

theorem usedEntry_toNat (hsize : q.size ≠ 0) (idx : BitVec 16) :
    (q.usedEntry idx).toNat = (q.usedAddr.toNat + 4 + 8 * q.slotOf idx) % 2 ^ 64 := by
  have hlt := q.slotOf_lt hsize idx
  unfold usedEntry slotOf at *
  simp only [BitVec.toNat_add, BitVec.toNat_ofNat]
  omega

/-- Two byte ranges that do not meet. -/
def Apart (i n j k : Nat) : Prop := i + n ≤ j ∨ j + k ≤ i

/-- Where the words of the used ring are, and that they do not overlap even if addresses
wrap around. -/
structure UsedLayout (q : VirtQueue) (idx other : BitVec 16) : Prop where
  index_head : Apart (q.usedAddr + 2#64).toNat 2 (q.usedEntry idx).toNat 4
  index_len : Apart (q.usedAddr + 2#64).toNat 2 (q.usedEntry idx + 4#64).toNat 4
  head_len : Apart (q.usedEntry idx).toNat 4 (q.usedEntry idx + 4#64).toNat 4
  head_head : q.slotOf idx ≠ q.slotOf other →
    Apart (q.usedEntry idx).toNat 4 (q.usedEntry other).toNat 4
  head_len_other : q.slotOf idx ≠ q.slotOf other →
    Apart (q.usedEntry idx).toNat 4 (q.usedEntry other + 4#64).toNat 4
  len_len : q.slotOf idx ≠ q.slotOf other →
    Apart (q.usedEntry idx + 4#64).toNat 4 (q.usedEntry other + 4#64).toNat 4

theorem UsedRingFits.layout (hsize : q.size ≠ 0) (h : q.UsedRingFits mem)
    (idx other : BitVec 16) : q.UsedLayout idx other := by
  obtain ⟨⟨-, hindex⟩, hentries⟩ := h
  obtain ⟨⟨-, hhead⟩, ⟨-, hlen⟩⟩ := hentries idx
  obtain ⟨⟨-, hhead'⟩, ⟨-, hlen'⟩⟩ := hentries other
  have hslot := q.slotOf_lt hsize idx
  have hslot' := q.slotOf_lt hsize other
  have hentry := usedEntry_toNat hsize idx
  have hentry' := usedEntry_toNat hsize other
  have hbase := q.usedAddr.isLt
  simp only [BitVec.toNat_add, BitVec.toNat_ofNat] at *
  constructor <;> intros <;> simp only [Apart, BitVec.toNat_add, BitVec.toNat_ofNat] <;> omega

/-- Memory after an append whose three stores fit. -/
def appended (q : VirtQueue) (mem : FlatMem) (head : BitVec 16) (len : BitVec 32) : FlatMem :=
  ((mem.put (q.usedEntry (q.usedIndex mem)).toNat 4 head.toNat).put
      (q.usedEntry (q.usedIndex mem) + 4#64).toNat 4 len.toNat).put
    (q.usedAddr + 2#64).toNat 2 (q.usedIndex mem + 1).toNat

theorem pushUsed_of_fits (h : q.UsedRingFits mem) (head : BitVec 16) (len : BitVec 32) :
    q.pushUsed mem head len = (q.appended mem head len, true) := by
  have hload : mem.load (q.usedAddr + 2#64) 2 =
      some (mem.value (q.usedAddr + 2#64).toNat 2) := if_pos h.1
  obtain ⟨hhead, hlen⟩ := h.2 (q.usedIndex mem)
  have hfirst := FlatMem.store_of_fits (v := head.toNat) hhead
  have hsecond := FlatMem.store_of_fits (v := len.toNat)
    (m := mem.put (q.usedEntry (q.usedIndex mem)).toNat 4 head.toNat) hlen
  simp only [usedIndex] at hfirst hsecond
  simp only [pushUsed, hload, hfirst, hsecond]
  exact FlatMem.store_of_fits h.1

/-- The append publishes one more element, in the next slot, and leaves the other slots. -/
structure Appends (q : VirtQueue) (mem mem' : FlatMem) (head : BitVec 16)
    (len : BitVec 32) : Prop where
  size : mem'.size = mem.size
  index : q.usedIndex mem' = q.usedIndex mem + 1
  element : q.usedElement mem' (q.usedIndex mem) = (head.toNat, len.toNat)
  others : ∀ idx, q.slotOf idx ≠ q.slotOf (q.usedIndex mem) →
    q.usedElement mem' idx = q.usedElement mem idx

theorem appended_appends (hsize : q.size ≠ 0) (h : q.UsedRingFits mem) (head : BitVec 16)
    (len : BitVec 32) : q.Appends mem (q.appended mem head len) head len := by
  have hidx := h.layout hsize (q.usedIndex mem)
  constructor
  · rfl
  · have hindexLt : (q.usedIndex mem + 1).toNat < 256 ^ 2 := BitVec.isLt _
    rw [usedIndex, appended, FlatMem.value_put_same, Nat.mod_eq_of_lt hindexLt,
      BitVec.ofNat_toNat, BitVec.setWidth_eq]
  · obtain ⟨hhead, hlen, hboth, -⟩ := hidx (q.usedIndex mem)
    have hheadLt : head.toNat < 256 ^ 4 := Nat.lt_trans head.isLt (by decide)
    have hlenLt : len.toNat < 256 ^ 4 := len.isLt
    rw [usedElement, appended, FlatMem.value_put_of_disjoint hhead.symm,
      FlatMem.value_put_of_disjoint hboth, FlatMem.value_put_same, Nat.mod_eq_of_lt hheadLt,
      FlatMem.value_put_of_disjoint hlen.symm, FlatMem.value_put_same,
      Nat.mod_eq_of_lt hlenLt]
  · intro idx hslot
    have hother := h.layout hsize idx (q.usedIndex mem)
    have hother' := hidx idx
    rw [usedElement, usedElement, appended,
      FlatMem.value_put_of_disjoint hother.index_head.symm,
      FlatMem.value_put_of_disjoint (hother.head_len_other hslot),
      FlatMem.value_put_of_disjoint (hother.head_head hslot),
      FlatMem.value_put_of_disjoint hother.index_len.symm,
      FlatMem.value_put_of_disjoint (hother.len_len hslot),
      FlatMem.value_put_of_disjoint (hother'.head_len_other hslot.symm).symm]

/-- The buffers of a chain lie outside the used ring. -/
def Separated (q : VirtQueue) (chain : DescriptorChain) : Prop :=
  ∀ d ∈ chain.descriptors,
    Apart d.addr.toNat d.len.toNat (q.usedAddr + 2#64).toNat 2 ∧
      ∀ idx, Apart d.addr.toNat d.len.toNat (q.usedEntry idx).toNat 4 ∧
        Apart d.addr.toNat d.len.toNat (q.usedEntry idx + 4#64).toNat 4

theorem readChain_head {head : BitVec 16} {chain : DescriptorChain}
    (h : q.readChain mem head = some chain) : chain.head = head := by
  obtain ⟨descriptors, -, rfl⟩ := Option.map_eq_some_iff.mp h
  rfl

end VirtQueue

/-- A handler that writes only inside the buffers of the chain it is given. -/
def Handler.Honest {σ : Type} (handler : Handler σ) : Prop :=
  ∀ state chain mem, (handler state chain mem).2.2.size = mem.size ∧
    ∀ x, (∀ d ∈ chain.descriptors, ¬ (d.addr.toNat ≤ x ∧ x < d.addr.toNat + d.len.toNat)) →
      (handler state chain mem).2.2.byte x = mem.byte x

theorem Handler.Honest.sameUsed {σ : Type} {handler : Handler σ} {q : VirtQueue} {state : σ}
    {chain : DescriptorChain} {mem : FlatMem} (h : handler.Honest) (hsep : q.Separated chain) :
    q.SameUsed mem (handler state chain mem).2.2 := by
  obtain ⟨hsize, hbytes⟩ := h state chain mem
  have hsame : ∀ i n, (∀ d ∈ chain.descriptors, VirtQueue.Apart d.addr.toNat d.len.toNat i n) →
      FlatMem.SameAt (handler state chain mem).2.2 mem i n := by
    intro i n hapart x hx hlt
    refine hbytes x fun d hd hin => ?_
    rcases hapart d hd with h | h <;> omega
  constructor
  · exact hsize
  · exact hsame _ _ fun d hd => (hsep d hd).1
  · exact fun idx => hsame _ _ fun d hd => ((hsep d hd).2 idx).1
  · exact fun idx => hsame _ _ fun d hd => ((hsep d hd).2 idx).2

namespace QueueRun

variable {σ : Type} {handler : Handler σ} {w w' : QueueRun σ} {c : Call}

/-- One round that went on. -/
structure Consumed (w w' : QueueRun σ) (c : Call) : Prop where
  queue : w'.queue = { w.queue with lastAvailIdx := w.queue.lastAvailIdx + 1 }
  position : c.position = w.queue.lastAvailIdx
  after : c.after = w'.mem
  appends : w.queue.Appends w.mem w'.mem c.chain.head c.written

/-- While the used ring fits, a round either stops before the handler or goes on. -/
theorem consume_cases (hsize : w.queue.size ≠ 0) (hfits : w.queue.UsedRingFits w.mem)
    (honest : handler.Honest) :
    w.consume handler = (w, false) ∨
      ∃ w' c, w.consume handler = (w', true) ∧ w'.calls = w.calls ++ [c] ∧
        (w.queue.Separated c.chain → Consumed w w' c) := by
  unfold consume
  cases hentry : w.queue.availRingEntry w.mem w.queue.lastAvailIdx with
  | none => exact .inl rfl
  | some head =>
    by_cases hlarge : w.queue.size.toNat ≤ head.toNat
    · exact .inl (if_pos hlarge)
    · cases hchain : w.queue.readChain w.mem head with
      | none => exact .inl (by simp only [if_neg hlarge, hchain])
      | some chain =>
        right
        have hfits' := hfits.of_size (honest w.state chain w.mem).1
        have hpush := VirtQueue.pushUsed_of_fits hfits' head (handler w.state chain w.mem).1
        simp only [if_neg hlarge, hchain, hpush, if_true]
        refine ⟨_, _, rfl, rfl, fun hsep => ?_⟩
        have hsame : w.queue.SameUsed w.mem (handler w.state chain w.mem).2.2 :=
          honest.sameUsed hsep
        have happ := VirtQueue.appended_appends hsize hfits' head (handler w.state chain w.mem).1
        have hhead := VirtQueue.readChain_head hchain
        refine ⟨rfl, rfl, rfl, ?_⟩
        subst hhead
        constructor
        · exact happ.size.trans hsame.size
        · rw [← hsame.usedIndex_eq]
          exact happ.index
        · rw [← hsame.usedIndex_eq]
          exact happ.element
        · intro idx hslot
          rw [← hsame.usedIndex_eq] at hslot
          exact (happ.others idx hslot).trans (hsame.usedElement_eq idx)

theorem consume_calls_prefix (handler : Handler σ) (w : QueueRun σ) :
    w.calls <+: (w.consume handler).1.calls := by
  unfold consume
  split
  · exact List.prefix_rfl
  · split
    · exact List.prefix_rfl
    · split
      · exact List.prefix_rfl
      · dsimp only
        split <;> exact List.prefix_append _ _

theorem walk_calls_prefix (handler : Handler σ) (n : Nat) (w : QueueRun σ) :
    w.calls <+: (walk handler n w).1.calls := by
  induction n generalizing w with
  | zero => exact List.prefix_rfl
  | succ n ih =>
    have hone := consume_calls_prefix handler w
    unfold walk
    split
    · rename_i w' heq
      rw [heq] at hone
      exact hone.trans (ih w')
    · rename_i w' heq
      rw [heq] at hone
      exact hone

/-- What the `k`-th of the new calls has left behind: its own position, its completion with
the published index, and, unless a later completion took the slot, that completion still in
memory at the end. -/
structure Completed (w w' : QueueRun σ) (total k : Nat) (c : Call) : Prop where
  position : c.position = w.queue.lastAvailIdx + BitVec.ofNat 16 k
  index : w.queue.usedIndex c.after = w.queue.usedIndex w.mem + BitVec.ofNat 16 (k + 1)
  element : w.queue.usedElement c.after (w.queue.usedIndex w.mem + BitVec.ofNat 16 k) =
    (c.chain.head.toNat, c.written.toNat)
  kept : (∀ j, k < j → j < total →
      w.queue.slotOf (w.queue.usedIndex w.mem + BitVec.ofNat 16 k) ≠
        w.queue.slotOf (w.queue.usedIndex w.mem + BitVec.ofNat 16 j)) →
    w.queue.usedElement w'.mem (w.queue.usedIndex w.mem + BitVec.ofNat 16 k) =
      (c.chain.head.toNat, c.written.toNat)

/-- Handler calls, consumed entries and completions of one pass agree. -/
structure Accounted (w w' : QueueRun σ) (processed : Nat) (new : List Call) : Prop where
  calls : w'.calls = w.calls ++ new
  processed : processed = new.length
  queue : w'.queue =
    { w.queue with lastAvailIdx := w.queue.lastAvailIdx + BitVec.ofNat 16 new.length }
  index : w.queue.usedIndex w'.mem = w.queue.usedIndex w.mem + BitVec.ofNat 16 new.length
  completed : ∀ k c, new[k]? = some c → Completed w w' new.length k c
  others : ∀ idx, (∀ j, j < new.length →
      w.queue.slotOf idx ≠ w.queue.slotOf (w.queue.usedIndex w.mem + BitVec.ofNat 16 j)) →
    w.queue.usedElement w'.mem idx = w.queue.usedElement w.mem idx

theorem Accounted.refl (w : QueueRun σ) : Accounted w w 0 [] := by
  constructor <;> simp

private theorem step_index (x : BitVec 16) (k : Nat) :
    x + 1 + BitVec.ofNat 16 k = x + BitVec.ofNat 16 (k + 1) := by
  rw [Nat.add_comm k 1, BitVec.ofNat_add, BitVec.add_assoc]
  rfl

/-- A round in front of an accounted pass. -/
theorem Accounted.cons {w'' : QueueRun σ} {n : Nat} {new : List Call} (hone : Consumed w w' c)
    (hcalls : w'.calls = w.calls ++ [c]) (h : Accounted w' w'' n new) :
    Accounted w w'' (n + 1) (c :: new) := by
  obtain ⟨hqueue, hposition, hafter, happ⟩ := hone
  obtain ⟨hcalls', hprocessed, hqueue', hindex, hcompleted, hothers⟩ := h
  have husedIndex : ∀ mem, w'.queue.usedIndex mem = w.queue.usedIndex mem := by
    intro mem
    rw [hqueue]
    rfl
  have husedElement : ∀ mem idx, w'.queue.usedElement mem idx = w.queue.usedElement mem idx := by
    intro mem idx
    rw [hqueue]
    rfl
  have hslot : ∀ idx, w'.queue.slotOf idx = w.queue.slotOf idx := by
    intro idx
    rw [hqueue]
    rfl
  simp only [husedIndex, husedElement, hslot, happ.index, step_index] at hindex hothers
  constructor
  · rw [hcalls', hcalls, List.append_assoc, List.singleton_append]
  · rw [hprocessed, List.length_cons]
  · rw [hqueue', hqueue, List.length_cons, ← step_index]
  · rw [hindex, List.length_cons]
  · intro k d hk
    cases k with
    | zero =>
      obtain rfl : c = d := by simpa using hk
      have helement := happ.element
      rw [← BitVec.add_zero (w.queue.usedIndex w.mem)] at helement
      constructor
      · exact hposition.trans (BitVec.add_zero _).symm
      · rw [hafter]
        exact happ.index
      · rw [hafter]
        exact helement
      · intro hfree
        refine (hothers _ fun j hj => hfree (j + 1) (by omega) (by simpa using hj)).trans helement
    | succ k =>
      obtain ⟨hpos, hidx, hel, hkept⟩ := hcompleted k d (by simpa using hk)
      simp only [husedIndex, husedElement, hslot, happ.index, step_index] at hidx hel hkept
      constructor
      · rw [hpos, hqueue, ← step_index]
      · exact hidx
      · exact hel
      · intro hfree
        refine hkept fun j hj hlt => hfree (j + 1) (by omega) (by simpa using hlt)
  · intro idx hfree
    have hfirst : w.queue.slotOf idx ≠ w.queue.slotOf (w.queue.usedIndex w.mem) := by
      simpa using hfree 0 (by simp)
    refine (hothers idx fun j hj => hfree (j + 1) (by simpa using hj)).trans ?_
    exact happ.others idx hfirst

/-- Every pass is accounted for, if the used ring fits into memory and the buffers handed out
lie outside it. -/
theorem walk_accounted (hsize : w.queue.size ≠ 0) (hfits : w.queue.UsedRingFits w.mem)
    (honest : handler.Honest) (n : Nat)
    (hsep : ∀ c ∈ (walk handler n w).1.calls.drop w.calls.length, w.queue.Separated c.chain) :
    Accounted w (walk handler n w).1 (walk handler n w).2
      ((walk handler n w).1.calls.drop w.calls.length) := by
  -- The used ring stays in memory because neither the handler nor the append changes the size.
  induction n generalizing w with
  | zero => simpa [walk] using Accounted.refl w
  | succ n ih =>
    rcases consume_cases hsize hfits honest with hstop | ⟨w', c, hgo, hcalls, hconsumed⟩
    · simpa [walk, hstop] using Accounted.refl w
    · have hwalk : walk handler (n + 1) w =
          ((walk handler n w').1, (walk handler n w').2 + 1) := by rw [walk, hgo]
      rw [hwalk] at hsep ⊢
      obtain ⟨rest, hrest⟩ := walk_calls_prefix handler n w'
      have hdrop : (walk handler n w').1.calls.drop w.calls.length = c :: rest := by
        rw [← hrest, hcalls, List.append_assoc, List.drop_left]
        rfl
      have hdrop' : (walk handler n w').1.calls.drop w'.calls.length = rest := by
        rw [← hrest, List.drop_left]
      simp only [hdrop] at hsep ⊢
      have hone := hconsumed (hsep c List.mem_cons_self)
      have hsize' : w'.queue.size ≠ 0 := by
        rw [hone.queue]
        exact hsize
      have hfits' : w'.queue.UsedRingFits w'.mem := by
        rw [hone.queue]
        exact hfits.of_size hone.appends.size
      have hsep' : ∀ d ∈ (walk handler n w').1.calls.drop w'.calls.length,
          w'.queue.Separated d.chain := by
        intro d hd
        rw [hdrop'] at hd
        rw [hone.queue]
        exact hsep d (List.mem_cons_of_mem c hd)
      have htail := ih hsize' hfits' hsep'
      rw [hdrop'] at htail
      exact htail.cons hone hcalls

theorem process_accounted (hfits : w.queue.UsedRingFits w.mem) (honest : handler.Honest)
    (hsep : ∀ c ∈ (w.process handler).1.calls.drop w.calls.length, w.queue.Separated c.chain) :
    Accounted w (w.process handler).1 (w.process handler).2
      ((w.process handler).1.calls.drop w.calls.length) := by
  unfold process at hsep ⊢
  by_cases hidle : w.queue.ready = false ∨ w.queue.size = 0
  · simpa only [if_pos hidle, List.drop_length] using Accounted.refl w
  · have hsize : w.queue.size ≠ 0 := fun h => hidle (.inr h)
    simp only [if_neg hidle] at hsep ⊢
    cases htarget : w.queue.availIdx w.mem with
    | none => simpa using Accounted.refl w
    | some target =>
      simp only [htarget] at hsep
      exact walk_accounted hsize hfits honest _ hsep

/-- What happens to a queue: the guest rewrites memory, the driver programs the queue's
registers, or a pass runs. The entries consumed so far are the device's own. -/
inductive QueueEvent
  | guest (mem : FlatMem)
  | program (size : BitVec 32) (ready : Bool) (descAddr availAddr usedAddr : Word)
  | process

def step (handler : Handler σ) (w : QueueRun σ) : QueueEvent → QueueRun σ
  | .guest mem => { w with mem := mem }
  | .program size ready descAddr availAddr usedAddr =>
    { w with queue := ⟨size, ready, descAddr, availAddr, usedAddr, w.queue.lastAvailIdx⟩ }
  | .process => (w.process handler).1

/-- A pass meets the used ring inside memory, and hands out no buffer that overlaps it. -/
def Allows (handler : Handler σ) (w : QueueRun σ) : QueueEvent → Prop
  | .process => w.queue.UsedRingFits w.mem ∧
      ∀ c ∈ (w.process handler).1.calls.drop w.calls.length, w.queue.Separated c.chain
  | _ => True

/-- Every entry was handed out once: the calls are for consecutive positions, up to the one
to consume next. -/
structure HandedOnce (start : BitVec 16) (w : QueueRun σ) : Prop where
  position : ∀ k c, w.calls[k]? = some c → c.position = start + BitVec.ofNat 16 k
  next : w.queue.lastAvailIdx = start + BitVec.ofNat 16 w.calls.length

theorem Accounted.handedOnce {start : BitVec 16} {n : Nat} {new : List Call}
    (h : Accounted w w' n new) (hw : HandedOnce start w) : HandedOnce start w' := by
  have hnext : ∀ k, w.queue.lastAvailIdx + BitVec.ofNat 16 k =
      start + BitVec.ofNat 16 (w.calls.length + k) := by
    intro k
    rw [hw.next, BitVec.ofNat_add, BitVec.add_assoc]
  constructor
  · intro k c hk
    rw [h.calls] at hk
    by_cases hlt : k < w.calls.length
    · rw [List.getElem?_append_left hlt] at hk
      exact hw.position k c hk
    · rw [List.getElem?_append_right (by omega)] at hk
      rw [(h.completed _ c hk).position, hnext]
      congr 2
      omega
  · rw [h.queue, h.calls, List.length_append]
    exact hnext new.length

theorem step_handedOnce {start : BitVec 16} {e : QueueEvent} (honest : handler.Honest)
    (hallows : w.Allows handler e) (hw : HandedOnce start w) :
    HandedOnce start (w.step handler e) := by
  cases e with
  | guest mem => exact ⟨hw.position, hw.next⟩
  | program size ready descAddr availAddr usedAddr => exact ⟨hw.position, hw.next⟩
  | process => exact (process_accounted hallows.1 honest hallows.2).handedOnce hw

/-- In every run whose passes all meet the used ring inside memory and hand out buffers outside
it, every available entry is handed out once, and each further such pass calls the handler
once for each entry consumed and each completion published. -/
theorem entries_handed_once (handler : Handler σ) (honest : handler.Honest) (start : BitVec 16)
    (w : QueueRun σ)
    (hreach : Reachable (fun w => w.calls = [] ∧ w.queue.lastAvailIdx = start)
      (fun w e w' => w.Allows handler e ∧ w.step handler e = w') w) :
    HandedOnce start w ∧
      (w.Allows handler .process →
        Accounted w (w.process handler).1 (w.process handler).2
          ((w.process handler).1.calls.drop w.calls.length)) := by
  constructor
  · refine hreach.invariant (fun w hinit => ?_) (fun w e w' hw hstep => ?_)
    · constructor
      · intro k c hk
        simp [hinit.1] at hk
      · rw [hinit.2, hinit.1]
        exact (BitVec.add_zero start).symm
    · rw [← hstep.2]
      exact step_handedOnce honest hstep.1 hw
  · intro hallows
    exact process_accounted hallows.1 honest hallows.2

/-- A handler that counts its calls and writes nothing. -/
def countCalls : Handler Nat := fun count _ mem => (0, count + 1, mem)

theorem countCalls_honest : countCalls.Honest := fun _ _ _ => ⟨rfl, fun _ _ => rfl⟩

/-- A queue of one descriptor: table at 0, available ring at 16 with one entry, used ring at 24,
in a memory of the given size. -/
def oneEntry (memSize : Nat) : QueueRun Nat where
  queue := { size := 1, ready := true, descAddr := 0, availAddr := 16, usedAddr := 24 }
  mem := { size := memSize, byte := fun x => if x = 18 then 1 else 0 }
  state := 0

/-- An empty buffer at address zero is outside everything. -/
theorem separated_of_empty {q : VirtQueue} {calls : List Call}
    (h : (calls.all fun c => c.chain.descriptors.all fun d => d.addr == 0 && d.len == 0) = true) :
    ∀ c ∈ calls, q.Separated c.chain := by
  intro c hc d hd
  obtain ⟨haddr, hlen⟩ : d.addr = 0 ∧ d.len = 0 := by
    simpa using List.all_eq_true.mp (List.all_eq_true.mp h c hc) d hd
  have hapart : ∀ i n, VirtQueue.Apart d.addr.toNat d.len.toNat i n := by
    intro i n
    rw [haddr, hlen]
    exact .inl (Nat.zero_le i)
  exact ⟨hapart _ _, fun idx => ⟨hapart _ _, hapart _ _⟩⟩

/-- The same queue in a larger memory, with a buffer of eight bytes at 64. -/
def withBuffer : QueueRun Nat :=
  { oneEntry 72 with mem := ((oneEntry 72).mem.put 0 1 64).put 8 1 8 }

/-- The queue after a pass and one more entry that the driver published. -/
def republished : QueueRun Nat :=
  let w := withBuffer.step countCalls .process
  w.step countCalls (.guest (w.mem.put 18 2 2))

theorem allows_process {w : QueueRun Nat} (hsize : w.queue.size = 1) (hused : w.queue.usedAddr = 24)
    (hmem : w.mem.size = 72)
    (hbuffer : ((w.process countCalls).1.calls.all fun c => c.chain.descriptors.all fun d =>
      d.addr == 64 && d.len == 8) = true) : w.Allows countCalls .process := by
  have hslot (idx : BitVec 16) : w.queue.usedEntry idx = 28#64 := by
    simp [VirtQueue.usedEntry, hsize, hused, Nat.mod_one]
  refine ⟨⟨?_, fun idx => ?_⟩, fun c hc d hd => ?_⟩
  · simp [hused, FlatMem.Fits, hmem]
  · simp [hslot, FlatMem.Fits, hmem]
  · obtain ⟨haddr, hlen⟩ : d.addr = 64 ∧ d.len = 8 := by
      simpa using List.all_eq_true.mp (List.all_eq_true.mp hbuffer c (List.mem_of_mem_drop hc)) d hd
    simp [hused, hslot, haddr, hlen, VirtQueue.Apart]

theorem entries_handed_once_republished :
    HandedOnce 0 (republished.step countCalls .process) ∧
      (republished.step countCalls .process).state = 2 := by
  refine ⟨(entries_handed_once countCalls countCalls_honest 0 _ ?_).1, by decide +kernel⟩
  have hpass : withBuffer.Allows countCalls .process :=
    allows_process rfl rfl rfl (by decide +kernel)
  have hagain : republished.Allows countCalls .process :=
    allows_process rfl rfl rfl (by decide +kernel)
  refine .step (s := republished) (.step (e := .guest _) ?_ ⟨trivial, rfl⟩) ⟨hagain, rfl⟩
  exact .step (.init (s := withBuffer) ⟨rfl, rfl⟩) ⟨hpass, rfl⟩

/-- The second word of the used element does not fit into the memory: the entry is handed out
in both passes and neither consumed nor completed. -/
def twoPasses : QueueRun Nat :=
  (((oneEntry 32).process countCalls).1.process countCalls).1

theorem uncompleted_entry_handed_twice :
    countCalls.Honest ∧ (∀ c ∈ twoPasses.calls, twoPasses.queue.Separated c.chain) ∧
      twoPasses.calls.map Call.position = [0, 0] ∧ twoPasses.state = 2 ∧
      twoPasses.queue.lastAvailIdx = 0 ∧ twoPasses.queue.usedIndex twoPasses.mem = 0 :=
  ⟨countCalls_honest, separated_of_empty (by decide +kernel), by decide +kernel,
    by decide +kernel, by decide +kernel, by decide +kernel⟩

end QueueRun

end Rax.Devices

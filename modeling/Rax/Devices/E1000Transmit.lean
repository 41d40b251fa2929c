import Mathlib.Data.List.Iterate
import Mathlib.Data.List.Nodup
import Mathlib.Data.Nat.ModEq
import Rax.Devices.E1000
import Rax.Lib.Framing
import Rax.Lib.SlotRing

/-!
# Frames of the transmit ring

A call walks the ring from TDH to TDT, once round at most. The frames that are sent are those of the
descriptors handled since the controller was made, over all calls: a frame ends with a descriptor
that has EOP, and consists of the buffers of its descriptors, in order, without those that would make
it too long. Frames with a buffer that cannot be read are left open here.
-/

namespace Rax.Devices

namespace E1000

/-! ## The walk as it should be -/

/-- How many descriptors a call handles: up to TDT, or once round if TDT is not in the ring. -/
def txPending (s : E1000) : Nat :=
  if s.txEnabled = false ∨ s.txRingCount = 0 ∨ s.tdh = s.tdt then 0
  else if s.tdt.toNat < s.txRingCount.toNat then
    slotsTo s.txRingCount.toNat (nextIndex s.txRingCount s.tdh).toNat s.tdt.toNat + 1
  else s.txRingCount.toNat

/-- Their indices, in ring order. -/
def txOrder (s : E1000) : List Reg :=
  List.iterate (nextIndex s.txRingCount) s.tdh s.txPending

namespace TxHandled

/-- Whether a frame ends with the descriptor. -/
def ends (h : TxHandled) : Bool := (h.buffer.map TxBuffer.eop).getD false

/-- The buffer, if there is one, can be read. -/
def Readable (h : TxHandled) : Prop := ∀ b ∈ h.buffer, b.len ≠ 0 → h.data ≠ none

instance (h : TxHandled) : Decidable h.Readable :=
  inferInstanceAs (Decidable (∀ b ∈ h.buffer, b.len ≠ 0 → h.data ≠ none))

end TxHandled

/-- Buffers one after the other, without those that would make the frame too long. -/
def joined (buffers : List (List Byte)) : List Byte :=
  buffers.foldl (fun acc bs => if maxFrame < acc.length + bs.length then acc else acc ++ bs) []

/-- The frames of the handled descriptors, as sent: those that can be read are whole. -/
def FramesWhole (handled : List TxHandled) (sent : List (List Byte)) : Prop :=
  ∃ frames : List (List Byte),
    List.Forall₂
      (fun ds frame => (∀ h ∈ ds, h.Readable) → frame = joined (ds.filterMap TxHandled.data))
      (framesOf TxHandled.ends handled).1 frames ∧
    sent = frames.filter (· ≠ [])

/-! ## Runs -/

/-- What is done with a controller; each use of memory brings the memory as it then is. -/
inductive Op (μ : Type) where
  | read (addr : Word) (n : Nat)
  | write (addr : Word) (data : List Byte)
  | writeRegMem (offset : Nat) (value : Reg) (mem : μ)
  | processTx (mem : μ)
  | receiveFrame (mem : μ) (frame : List Byte)
  | takeTxFrame

/-- A controller, with the descriptors it has handled and the frames that were taken from it. -/
structure Log where
  dev : E1000
  handled : List TxHandled := []
  taken : List (List Byte) := []

namespace Log

variable {μ : Type} [BoundedStore μ]

def step (l : Log) : Op μ → Log
  | .read addr n => { l with dev := (l.dev.read addr n).2 }
  | .write addr data => { l with dev := l.dev.write addr data }
  | .writeRegMem offset value mem =>
    { l with dev := (l.dev.writeRegMem offset value mem).dev,
             handled := l.handled ++ (l.dev.writeRegMem offset value mem).handled }
  | .processTx mem =>
    { l with dev := (l.dev.processTx mem).dev,
             handled := l.handled ++ (l.dev.processTx mem).handled }
  | .receiveFrame mem frame => { l with dev := (l.dev.receiveFrame mem frame).2.1 }
  | .takeTxFrame =>
    { l with dev := l.dev.takeTxFrame.2, taken := l.taken ++ l.dev.takeTxFrame.1.toList }

def run (l : Log) (ops : List (Op μ)) : Log := ops.foldl step l

end Log

/-! ## Ring order -/

section Order

variable {count tdt i : Reg}

theorem toNat_pos (hcount : count ≠ 0) : 0 < count.toNat := by
  have := mt (BitVec.eq_of_toNat_eq (x := count) (y := 0)) hcount
  simp at this
  omega

theorem nextIndex_lt (hcount : count ≠ 0) (i : Reg) :
    (nextIndex count i).toNat < count.toNat := by
  rw [nextIndex, BitVec.toNat_umod]
  exact Nat.mod_lt _ (toNat_pos hcount)

theorem toNat_nextIndex (hi : i.toNat < count.toNat) :
    (nextIndex count i).toNat = (i.toNat + 1) % count.toNat := by
  have hlt := count.isLt
  have hone : (1 : Reg).toNat = 1 := rfl
  have hsum : (i + 1).toNat = i.toNat + 1 := by
    rw [BitVec.toNat_add, hone, Nat.mod_eq_of_lt (by omega)]
  rw [nextIndex, BitVec.toNat_umod, hsum]

/-- How many turns the walk makes, if every descriptor can be read. -/
def walkLength (count tdt : Reg) : Nat → Reg → Nat
  | 0, _ => 0
  | n + 1, i => if i = tdt then 0 else walkLength count tdt n (nextIndex count i) + 1

theorem walkLength_of_lt (htdt : tdt.toNat < count.toNat) (hi : i.toNat < count.toNat) {n : Nat}
    (hn : slotsTo count.toNat i.toNat tdt.toNat ≤ n) :
    walkLength count tdt n i = slotsTo count.toNat i.toNat tdt.toNat ∧
      (nextIndex count)^[slotsTo count.toNat i.toNat tdt.toNat] i = tdt := by
  induction n generalizing i with
  | zero =>
    have hzero : slotsTo count.toNat i.toNat tdt.toNat = 0 := Nat.le_zero.mp hn
    have hsame : i = tdt := by
      by_contra hne
      have := slotsTo_of_next hi htdt fun h => hne (BitVec.eq_of_toNat_eq h)
      omega
    exact ⟨by rw [walkLength, hzero], by rw [hzero]; exact hsame⟩
  | succ n ih =>
    rw [walkLength]
    by_cases hsame : i = tdt
    · subst hsame
      rw [if_pos rfl, slotsTo_self hi]
      exact ⟨rfl, rfl⟩
    · have hstep := slotsTo_of_next hi htdt fun h => hsame (BitVec.eq_of_toNat_eq h)
      rw [← toNat_nextIndex hi] at hstep
      have hnext : (nextIndex count i).toNat < count.toNat := by
        rw [toNat_nextIndex hi]
        exact Nat.mod_lt _ (Nat.zero_lt_of_lt hi)
      obtain ⟨hlen, hend⟩ := ih hnext (by omega)
      rw [if_neg hsame, hstep, hlen]
      exact ⟨rfl, hend⟩

/-- A tail outside the ring is never met again. -/
theorem walkLength_of_ge (hcount : count ≠ 0) (htdt : count.toNat ≤ tdt.toNat)
    (hi : i.toNat < count.toNat) (n : Nat) : walkLength count tdt n i = n := by
  induction n generalizing i with
  | zero => rfl
  | succ n ih =>
    have hne : i ≠ tdt := by
      rintro rfl
      omega
    rw [walkLength, if_neg hne, ih (nextIndex_lt hcount i)]

theorem iterate_toNat (hi : i.toNat < count.toNat) (n : Nat) :
    (List.iterate (nextIndex count) i n).map BitVec.toNat =
      (List.range n).map fun k => (i.toNat + k) % count.toNat := by
  induction n generalizing i with
  | zero => rfl
  | succ n ih =>
    have hnext := toNat_nextIndex hi
    have hlt : (nextIndex count i).toNat < count.toNat := by
      rw [hnext]
      exact Nat.mod_lt _ (Nat.zero_lt_of_lt hi)
    rw [List.iterate, List.map_cons, ih hlt, List.range_succ_eq_map, List.map_cons, List.map_map]
    congr 1
    · rw [Nat.add_zero, Nat.mod_eq_of_lt hi]
    · refine List.map_congr_left fun k _ => ?_
      rw [hnext, Nat.mod_add_mod]
      simp only [Function.comp_apply, Nat.succ_eq_add_one]
      congr 1
      omega

/-- Once round, no index comes twice. -/
theorem nodup_iterate_of_lt (hi : i.toNat < count.toNat) {n : Nat} (hn : n ≤ count.toNat) :
    (List.iterate (nextIndex count) i n).Nodup := by
  refine List.Nodup.of_map BitVec.toNat ?_
  rw [iterate_toNat hi]
  refine List.Nodup.map_on ?_ List.nodup_range
  intro a ha b hb hab
  have ha := List.mem_range.mp ha
  have hb := List.mem_range.mp hb
  have hmod : a % count.toNat = b % count.toNat :=
    Nat.ModEq.add_left_cancel' i.toNat hab
  rwa [Nat.mod_eq_of_lt (by omega), Nat.mod_eq_of_lt (by omega)] at hmod

theorem nodup_iterate (hcount : count ≠ 0) (i : Reg) {n : Nat} (hn : n ≤ count.toNat) :
    (List.iterate (nextIndex count) i n).Nodup := by
  by_cases hi : i.toNat < count.toNat
  · exact nodup_iterate_of_lt hi hn
  · cases n with
    | zero => exact List.nodup_nil
    | succ n =>
      have hnext := nextIndex_lt hcount i
      refine List.nodup_cons.mpr ⟨?_, nodup_iterate_of_lt hnext (by omega)⟩
      intro hmem
      have hmap := List.mem_map_of_mem (f := BitVec.toNat) hmem
      rw [iterate_toNat hnext] at hmap
      obtain ⟨k, -, hk⟩ := List.mem_map.mp hmap
      have := Nat.mod_lt ((nextIndex count i).toNat + k) (toNat_pos hcount)
      omega

end Order

/-! ## The walk as it is -/

section Walk

variable {μ : Type} {base : Word} {count : Reg} {w : TxWalk μ} {s : E1000}

theorem finishTx_ring (w : TxWalk μ) :
    (finishTx w).handled = w.handled ∧ (finishTx w).dev.tdh = w.dev.tdh ∧
      (finishTx w).dev.txQueue = w.dev.txQueue ∧ (finishTx w).dev.txPartial = w.dev.txPartial := by
  rw [finishTx]
  split <;> exact ⟨rfl, rfl, rfl, rfl⟩

/-- A call handles the pending descriptors, in ring order, each once, and leaves TDH after them; that
is TDT, if TDT is in the ring. -/
structure HandlesRing (s : E1000) (w : TxWalk μ) : Prop where
  order : w.handled.map TxHandled.index = s.txOrder
  once : (w.handled.map TxHandled.index).Nodup
  head : w.dev.tdh = (nextIndex s.txRingCount)^[s.txPending] s.tdh
  stops : s.txEnabled = true → s.txRingCount ≠ 0 →
    s.tdh = s.tdt ∨ s.tdt.toNat < s.txRingCount.toNat → w.dev.tdh = s.tdt

theorem handlesRing_idle (mem : μ) (hidle : s.txEnabled = false ∨ s.txRingCount = 0) :
    HandlesRing s { dev := s, mem } := by
  have hnone : s.txPending = 0 := if_pos (hidle.imp_right Or.inl)
  refine ⟨?_, List.nodup_nil, ?_, ?_⟩
  · rw [txOrder, hnone]
    rfl
  · rw [hnone]
    rfl
  · intro henabled hcount _
    rcases hidle with h | h
    · rw [h] at henabled
      cases henabled
    · exact absurd h hcount

variable [BoundedStore μ]

theorem inBounds_writeBack (mem : μ) (gpa : Word) (raw : List Byte) :
    BoundedStore.inBounds (writeBack mem gpa raw) = BoundedStore.inBounds mem := by
  rw [writeBack]
  split
  · exact BoundedStore.inBounds_write _ _ _
  · rfl

theorem appendTxData_ring (s : E1000) (mem : μ) (addr : Word) (len : Nat) :
    (s.appendTxData mem addr len).tdt = s.tdt := by
  rw [appendTxData]
  split_ifs
  · rfl
  · rfl
  · split <;> rfl

theorem finishTxFrame_ring (s : E1000) : s.finishTxFrame.tdt = s.tdt := by
  rw [finishTxFrame]
  split <;> rfl

theorem handleBuffer_ring (s : E1000) (mem : μ) (b : Option TxBuffer) :
    (s.handleBuffer mem b).tdt = s.tdt := by
  cases b with
  | none => rfl
  | some b =>
    rw [handleBuffer]
    split
    · exact (finishTxFrame_ring _).trans (appendTxData_ring _ _ _ _)
    · exact appendTxData_ring _ _ _ _

theorem txTurn_tdt (raw : List Byte) : (txTurn base count w raw).dev.tdt = w.dev.tdt :=
  handleBuffer_ring _ _ _

/-- With readable descriptors, the loop handles those of the walk in order. -/
theorem txLoop_walk (base : Word) (count : Reg) (n : Nat)
    (hread : ∀ i ∈ List.iterate (nextIndex count) w.dev.tdh
      (walkLength count w.dev.tdt n w.dev.tdh),
      BoundedStore.inBounds w.mem (descAddr base i) descSize = true) :
    (txLoop base count n w).handled.map TxHandled.index = w.handled.map TxHandled.index ++
        List.iterate (nextIndex count) w.dev.tdh (walkLength count w.dev.tdt n w.dev.tdh) ∧
      (txLoop base count n w).dev.tdh =
        (nextIndex count)^[walkLength count w.dev.tdt n w.dev.tdh] w.dev.tdh := by
  induction n generalizing w with
  | zero => exact ⟨(List.append_nil _).symm, rfl⟩
  | succ n ih =>
    rw [txLoop]
    rw [walkLength] at hread ⊢
    by_cases hsame : w.dev.tdh = w.dev.tdt
    · simp only [if_pos hsame]
      exact ⟨(List.append_nil _).symm, rfl⟩
    · simp only [if_neg hsame] at hread ⊢
      rw [List.iterate] at hread ⊢
      obtain ⟨hfirst, hrest⟩ := List.forall_mem_cons.mp hread
      rw [← BoundedStore.read_isSome] at hfirst
      obtain ⟨raw, hraw⟩ := Option.isSome_iff_exists.mp hfirst
      simp only [hraw]
      have hturn := ih (w := txTurn base count w raw) (by
        rw [txTurn_tdt]
        intro i hi
        exact (congrFun (congrFun (inBounds_writeBack w.mem _ raw) _) _).trans (hrest i hi))
      rw [txTurn_tdt] at hturn
      refine ⟨hturn.1.trans ?_, hturn.2⟩
      simp [txTurn, txHandled]

/-- The walk of a ring that is in use ends where the closed form says. -/
theorem walkLength_eq_txPending (henabled : s.txEnabled = true) (hcount : s.txRingCount ≠ 0) :
    walkLength s.txRingCount s.tdt s.txRingCount.toNat s.tdh = s.txPending ∧
      (s.tdh = s.tdt ∨ s.tdt.toNat < s.txRingCount.toNat →
        (nextIndex s.txRingCount)^[s.txPending] s.tdh = s.tdt) := by
  have hpos := toNat_pos hcount
  have hnext := nextIndex_lt hcount s.tdh
  obtain ⟨n, hn⟩ := Nat.exists_eq_succ_of_ne_zero (Nat.ne_of_gt hpos)
  have hturn (hne : s.tdh ≠ s.tdt) : walkLength s.txRingCount s.tdt s.txRingCount.toNat s.tdh =
      walkLength s.txRingCount s.tdt n (nextIndex s.txRingCount s.tdh) + 1 := by
    rw [hn, walkLength, if_neg hne]
  by_cases hsame : s.tdh = s.tdt
  · rw [txPending, if_pos (Or.inr (Or.inr hsame)), hn, walkLength, if_pos hsame]
    exact ⟨rfl, fun _ => hsame⟩
  · have hrun : ¬(s.txEnabled = false ∨ s.txRingCount = 0 ∨ s.tdh = s.tdt) := by
      rintro (h | h | h)
      · rw [henabled] at h
        cases h
      · exact hcount h
      · exact hsame h
    rw [txPending, if_neg hrun, hturn hsame]
    by_cases htdt : s.tdt.toNat < s.txRingCount.toNat
    · obtain ⟨hlen, hend⟩ := walkLength_of_lt htdt hnext
        (n := n) (by have := Nat.mod_lt (s.tdt.toNat + s.txRingCount.toNat -
          (nextIndex s.txRingCount s.tdh).toNat) hpos; rw [slotsTo]; omega)
      rw [if_pos htdt, hlen]
      exact ⟨rfl, fun _ => hend⟩
    · rw [if_neg htdt, walkLength_of_ge hcount (by omega) hnext, hn]
      exact ⟨rfl, fun h => absurd h (by simp [hsame]; omega)⟩

theorem txPending_le (s : E1000) : s.txPending ≤ s.txRingCount.toNat := by
  rw [txPending]
  split
  · exact Nat.zero_le _
  · rename_i hrun
    split
    · have hpos := toNat_pos (fun h => hrun (Or.inr (Or.inl h)))
      exact Nat.mod_lt _ hpos
    · exact Nat.le_refl _

theorem processTx_handlesRing (mem : μ)
    (hread : ∀ i ∈ s.txOrder, BoundedStore.inBounds mem (descAddr s.txBase i) descSize = true) :
    HandlesRing s (s.processTx mem) := by
  rw [processTx]
  split
  · rename_i h
    exact handlesRing_idle mem (Or.inl h)
  · rename_i henabled
    split
    · rename_i h
      exact handlesRing_idle mem (Or.inr h)
    · rename_i hcount
      obtain ⟨hlen, hend⟩ := walkLength_eq_txPending (by simpa using henabled) hcount
      have hwalk := txLoop_walk (w := { dev := s, mem }) s.txBase s.txRingCount
        s.txRingCount.toNat (by rw [hlen]; exact hread)
      rw [hlen] at hwalk
      obtain ⟨hhandled, htdh, -⟩ := finishTx_ring
        (txLoop s.txBase s.txRingCount s.txRingCount.toNat { dev := s, mem })
      refine ⟨?_, ?_, ?_, ?_⟩
      · rw [hhandled]
        exact hwalk.1
      · rw [hhandled, hwalk.1]
        exact nodup_iterate hcount _ (txPending_le s)
      · rw [htdh]
        exact hwalk.2
      · intro _ _ hin
        rw [htdh]
        exact hwalk.2.trans (hend hin)

end Walk

/-! ## Frames -/

/-- The open frame after a descriptor. -/
def addHandled (acc : List Byte) (h : TxHandled) : List Byte :=
  match h.buffer with
  | none => acc
  | some b =>
    if b.len = 0 then acc
    else if maxFrame < acc.length + b.len then acc
    else acc ++ h.data.getD []

/-- What a controller that handled these descriptors has closed, empty frames included, and what it
has open. -/
def received (hs : List TxHandled) : Receiver (List Byte) :=
  hs.foldl (Receiver.take TxHandled.ends addHandled []) ⟨[], []⟩

theorem received_snoc (hs : List TxHandled) (h : TxHandled) :
    received (hs ++ [h]) = (received hs).take TxHandled.ends addHandled [] h := by
  rw [received, List.foldl_append]
  rfl

/-- The frames sent, and the open one, are those of the handled descriptors. -/
structure Sent (hs : List TxHandled) (taken : List (List Byte)) (s : E1000) : Prop where
  sent : taken ++ s.txQueue = (received hs).closed.filter (· ≠ [])
  opened : s.txPartial = (received hs).acc

theorem Sent.of_same {hs : List TxHandled} {taken : List (List Byte)} {s s' : E1000}
    (h : Sent hs taken s) (hqueue : s'.txQueue = s.txQueue) (hopen : s'.txPartial = s.txPartial) :
    Sent hs taken s' where
  sent := by rw [hqueue]; exact h.sent
  opened := by rw [hopen]; exact h.opened

section Frames

variable {μ : Type} [BoundedStore μ] {hs : List TxHandled} {taken : List (List Byte)} {s : E1000}

/-- The data of a descriptor is as long as its buffer. -/
def TxHandled.WellFormed (h : TxHandled) : Prop :=
  ∀ bs ∈ h.data, ∃ b ∈ h.buffer, bs.length = b.len

theorem txHandled_wellFormed (mem : μ) (i : Reg) (raw : List Byte) :
    (txHandled mem i raw).WellFormed := by
  intro bs hbs
  obtain ⟨b, hb, hread⟩ := Option.bind_eq_some_iff.mp hbs
  exact ⟨b, hb, BoundedStore.length_of_read hread⟩

theorem appendTxData_queue (s : E1000) (mem : μ) (addr : Word) (len : Nat) :
    (s.appendTxData mem addr len).txQueue = s.txQueue := by
  rw [appendTxData]
  split_ifs
  · rfl
  · rfl
  · split <;> rfl

theorem appendTxData_partial (s : E1000) (mem : μ) (i : Reg) (raw : List Byte) {b : TxBuffer}
    (hb : txBuffer raw = some b) :
    (s.appendTxData mem b.addr b.len).txPartial =
      addHandled s.txPartial (txHandled mem i raw) := by
  have hdata : (txHandled mem i raw).data = ByteStore.read mem b.addr b.len := by
    rw [txHandled, hb]
    rfl
  have hbuffer : (txHandled mem i raw).buffer = some b := hb
  rw [addHandled, hbuffer, hdata, appendTxData]
  dsimp only
  split_ifs
  · rfl
  · rfl
  · cases ByteStore.read mem b.addr b.len with
    | none => exact (List.append_nil _).symm
    | some buf => rfl

theorem finishTxFrame_sent {acc : List Byte} (hopen : s.txPartial = acc) :
    s.finishTxFrame.txQueue = s.txQueue ++ [acc].filter (· ≠ []) ∧
      s.finishTxFrame.txPartial = [] := by
  subst hopen
  rw [finishTxFrame]
  split
  · rename_i hempty
    simp [hempty]
  · rename_i hne
    simp [hne]

/-- One descriptor: the controller does what the receiver does. -/
theorem Sent.turn (h : Sent hs taken s) (mem : μ) (i : Reg) (raw : List Byte) :
    Sent (hs ++ [txHandled mem i raw]) taken (s.handleBuffer mem (txBuffer raw)) := by
  have hbuffer : (txHandled mem i raw).buffer = txBuffer raw := rfl
  cases hb : txBuffer raw with
  | none =>
    have hends : (txHandled mem i raw).ends = false := by
      rw [TxHandled.ends, hbuffer, hb]
      rfl
    have hadd : addHandled (received hs).acc (txHandled mem i raw) = (received hs).acc := by
      rw [addHandled, hbuffer, hb]
    constructor <;> rw [received_snoc, Receiver.take_of_not_ends _ _ _ hends]
    · exact h.sent
    · exact h.opened.trans hadd.symm
  | some b =>
    have hends : (txHandled mem i raw).ends = b.eop := by
      rw [TxHandled.ends, hbuffer, hb]
      rfl
    have hadd := appendTxData_partial s mem i raw hb
    have hqueue := appendTxData_queue s mem b.addr b.len
    rw [h.opened] at hadd
    rw [handleBuffer]
    cases heop : b.eop with
    | false =>
      constructor <;> rw [received_snoc, Receiver.take_of_not_ends _ _ _ (hends.trans heop)]
      · exact (congrArg (taken ++ ·) hqueue).trans h.sent
      · exact hadd
    | true =>
      obtain ⟨hfinish, hnil⟩ := finishTxFrame_sent hadd
      constructor <;> rw [received_snoc, Receiver.take_of_ends _ _ _ (hends.trans heop), if_pos rfl]
      · rw [hfinish, hqueue, ← List.append_assoc, h.sent, List.filter_append]
      · exact hnil

theorem txLoop_sent (base : Word) (count : Reg) (n : Nat) {w : TxWalk μ}
    (h : Sent (hs ++ w.handled) taken w.dev) :
    Sent (hs ++ (txLoop base count n w).handled) taken (txLoop base count n w).dev := by
  induction n generalizing w with
  | zero => exact h
  | succ n ih =>
    rw [txLoop]
    split
    · exact h
    · split
      · exact h
      · rename_i raw _
        refine ih ?_
        have hturn : Sent _ taken (txTurn base count w raw).dev :=
          (h.turn w.mem w.dev.tdh raw).of_same rfl rfl
        rw [List.append_assoc] at hturn
        exact hturn

theorem processTx_sent (h : Sent hs taken s) (mem : μ) :
    Sent (hs ++ (s.processTx mem).handled) taken (s.processTx mem).dev := by
  have hidle : Sent (hs ++ []) taken s := (List.append_nil hs).symm ▸ h
  rw [processTx]
  split
  · exact hidle
  · split
    · exact hidle
    · obtain ⟨hhandled, -, hqueue, hopen⟩ := finishTx_ring
        (txLoop s.txBase s.txRingCount s.txRingCount.toNat { dev := s, mem })
      rw [hhandled]
      exact (txLoop_sent s.txBase s.txRingCount _ (w := { dev := s, mem }) hidle).of_same hqueue hopen

theorem txLoop_wellFormed (base : Word) (count : Reg) (n : Nat) {w : TxWalk μ}
    (h : ∀ d ∈ w.handled, d.WellFormed) :
    ∀ d ∈ (txLoop base count n w).handled, d.WellFormed := by
  induction n generalizing w with
  | zero => exact h
  | succ n ih =>
    rw [txLoop]
    split
    · exact h
    · split
      · exact h
      · rename_i raw _
        refine ih fun d hd => ?_
        rcases List.mem_append.mp hd with hd | hd
        · exact h d hd
        · obtain rfl := List.mem_singleton.mp hd
          exact txHandled_wellFormed _ _ _

theorem processTx_wellFormed (s : E1000) (mem : μ) :
    ∀ d ∈ (s.processTx mem).handled, d.WellFormed := by
  rw [processTx]
  split
  · exact List.forall_mem_nil _
  · split
    · exact List.forall_mem_nil _
    · rw [(finishTx_ring _).1]
      exact txLoop_wellFormed _ _ _ (List.forall_mem_nil _)

end Frames

/-- Descriptors that can be read give their buffers, without those that do not fit. -/
theorem foldl_addHandled {ds : List TxHandled} (hread : ∀ h ∈ ds, h.Readable)
    (hwell : ∀ h ∈ ds, h.WellFormed) :
    ds.foldl addHandled [] = joined (ds.filterMap TxHandled.data) := by
  have hacc (acc : List Byte) : ds.foldl addHandled acc =
      (ds.filterMap TxHandled.data).foldl
        (fun acc bs => if maxFrame < acc.length + bs.length then acc else acc ++ bs) acc := by
    induction ds generalizing acc with
    | nil => rfl
    | cons d ds ih =>
      obtain ⟨hd, hread⟩ := List.forall_mem_cons.mp hread
      obtain ⟨hw, hwell⟩ := List.forall_mem_cons.mp hwell
      rw [List.foldl_cons, ih hread hwell, List.filterMap_cons]
      cases hdata : d.data with
      | none =>
        have hnone : addHandled acc d = acc := by
          rw [addHandled]
          split
          · rfl
          · rename_i b hb
            have hzero : b.len = 0 := by
              by_contra hne
              exact hd b hb hne hdata
            rw [if_pos hzero]
        rw [hnone]
      | some bs =>
        obtain ⟨b, hb, hlen⟩ := hw bs hdata
        have hsome : addHandled acc d =
            if maxFrame < acc.length + bs.length then acc else acc ++ bs := by
          rw [addHandled, hb, hdata, hlen]
          dsimp only
          by_cases hzero : b.len = 0
          · have hnil : bs = [] := List.eq_nil_of_length_eq_zero (hlen.trans hzero)
            simp [hzero, hnil]
          · rw [if_neg hzero]
            rfl
        rw [hsome, List.foldl_cons]
  exact hacc []

theorem Sent.framesWhole {hs : List TxHandled} {taken : List (List Byte)} {s : E1000}
    (h : Sent hs taken s) (hwell : ∀ d ∈ hs, d.WellFormed) :
    FramesWhole hs (taken ++ s.txQueue) := by
  refine ⟨(received hs).closed, ?_, h.sent⟩
  rw [received, Receiver.foldl_take, List.forall₂_map_right_iff]
  refine List.forall₂_same.mpr fun ds hds hread => foldl_addHandled hread fun d hd => ?_
  exact hwell d (mem_of_mem_framesOf hds hd)

/-! ## Whole runs -/

/-- A change that leaves the frames alone. -/
def SameFrames (s s' : E1000) : Prop := s'.txQueue = s.txQueue ∧ s'.txPartial = s.txPartial

theorem sameFrames_clockEeprom (s : E1000) (value : Reg) : SameFrames s (s.clockEeprom value) := by
  rw [clockEeprom]
  split
  · exact ⟨rfl, rfl⟩
  · split
    · split
      · rw [shiftOut]
        split <;> exact ⟨rfl, rfl⟩
      · rw [shiftIn]
        split_ifs <;> exact ⟨rfl, rfl⟩
    · exact ⟨rfl, rfl⟩

theorem sameFrames_startEepromRead (s : E1000) (value : Reg) :
    SameFrames s (s.startEepromRead value) := by
  rw [startEepromRead]
  split <;> exact ⟨rfl, rfl⟩

theorem sameFrames_writeReg (s : E1000) (offset : Nat) (value : Reg) :
    SameFrames s (s.writeReg offset value) := by
  unfold writeReg
  split
  · exact ⟨rfl, rfl⟩
  · split
    case h_2 => exact sameFrames_clockEeprom s value
    case h_3 => exact sameFrames_startEepromRead s value
    all_goals exact ⟨rfl, rfl⟩

theorem sameFrames_receiveFrame {μ : Type} [ByteStore μ] (s : E1000) (mem : μ) (frame : List Byte) :
    SameFrames s (s.receiveFrame mem frame).2.1 := by
  rw [receiveFrame]
  dsimp only
  split_ifs
  · exact ⟨rfl, rfl⟩
  · exact ⟨rfl, rfl⟩
  · exact ⟨rfl, rfl⟩
  · exact ⟨rfl, rfl⟩
  · split
    · exact ⟨rfl, rfl⟩
    · split
      · exact ⟨rfl, rfl⟩
      · split
        · exact ⟨rfl, rfl⟩
        · split <;> exact ⟨rfl, rfl⟩

namespace Log

variable {μ : Type} [BoundedStore μ] {l : Log}

/-- What holds of a controller and its record. -/
structure Faithful (l : Log) : Prop where
  sent : Sent l.handled l.taken l.dev
  wellFormed : ∀ d ∈ l.handled, d.WellFormed

theorem Faithful.of_sameFrames (h : l.Faithful) {s : E1000} (hs : SameFrames l.dev s) :
    ({ l with dev := s } : Log).Faithful := ⟨h.sent.of_same hs.1 hs.2, h.wellFormed⟩

theorem Faithful.processTx (h : l.Faithful) (mem : μ) :
    (⟨(l.dev.processTx mem).dev, l.handled ++ (l.dev.processTx mem).handled, l.taken⟩ :
      Log).Faithful := by
  refine ⟨processTx_sent h.sent mem, fun d hd => ?_⟩
  rcases List.mem_append.mp hd with hd | hd
  · exact h.wellFormed d hd
  · exact processTx_wellFormed _ _ d hd

theorem Faithful.step (h : l.Faithful) (op : Op μ) : (l.step op).Faithful := by
  cases op with
  | read addr n =>
    refine h.of_sameFrames ?_
    change SameFrames l.dev (if _ then _ else _)
    split <;> exact ⟨rfl, rfl⟩
  | write addr data => exact h.of_sameFrames (sameFrames_writeReg _ _ _)
  | writeRegMem offset value mem =>
    by_cases htdt : offset = 0x3818
    · have htail : ({ l with dev := { l.dev with tdt := value } } : Log).Faithful :=
        h.of_sameFrames ⟨rfl, rfl⟩
      have hcall := htail.processTx mem
      simp only [Log.step, E1000.writeRegMem, if_pos htdt]
      exact hcall
    · simp only [Log.step, E1000.writeRegMem, if_neg htdt, List.append_nil]
      exact h.of_sameFrames (sameFrames_writeReg _ _ _)
  | processTx mem => exact h.processTx mem
  | receiveFrame mem frame => exact h.of_sameFrames (sameFrames_receiveFrame _ _ _)
  | takeTxFrame =>
    refine ⟨⟨Eq.trans ?_ h.sent.sent, Eq.trans ?_ h.sent.opened⟩, h.wellFormed⟩
    · simp only [Log.step, E1000.takeTxFrame]
      cases hqueue : l.dev.txQueue with
      | nil => simp [hqueue]
      | cons frame frames => simp
    · simp only [Log.step, E1000.takeTxFrame]
      split <;> rfl

theorem Faithful.run (h : l.Faithful) (ops : List (Op μ)) : (l.run ops).Faithful := by
  induction ops generalizing l with
  | nil => exact h
  | cons op ops ih => exact ih (h.step op)

theorem faithful_new (m0 m1 m2 m3 m4 m5 : Byte) :
    ({ dev := E1000.new m0 m1 m2 m3 m4 m5 } : Log).Faithful :=
  ⟨⟨rfl, rfl⟩, List.forall_mem_nil _⟩

end Log

/-- After any run, a call on a ring whose descriptors can be read handles those between TDH and TDT
once each, in ring order; and the frames sent so far are whole. -/
theorem process_tx_ring_and_frames {μ : Type} [BoundedStore μ] (m0 m1 m2 m3 m4 m5 : Byte)
    (ops : List (Op μ)) (mem : μ) (l : Log)
    (hl : l = ({ dev := E1000.new m0 m1 m2 m3 m4 m5 } : Log).run ops)
    (hread : ∀ i ∈ l.dev.txOrder,
      BoundedStore.inBounds mem (descAddr l.dev.txBase i) descSize = true) :
    HandlesRing l.dev (l.dev.processTx mem) ∧
      FramesWhole (l.handled ++ (l.dev.processTx mem).handled)
        (l.taken ++ (l.dev.processTx mem).dev.txQueue) := by
  have hfaithful : l.Faithful := hl ▸ (Log.faithful_new m0 m1 m2 m3 m4 m5).run ops
  have hcall := hfaithful.processTx mem
  exact ⟨processTx_handlesRing mem hread, hcall.sent.framesWhole hcall.wellFormed⟩

/-- A legacy descriptor. -/
def sampleLegacy (addr len cmd : Word) : List Byte :=
  Word.toLeBytes addr 8 ++ Word.toLeBytes (len ||| (cmd <<< 24)) 8

/-- A data descriptor. -/
def sampleData (addr len cmd : Word) : List Byte :=
  Word.toLeBytes addr 8 ++ Word.toLeBytes (len ||| (1 <<< 20) ||| ((cmd ||| 0x20) <<< 24)) 8

/-- Two descriptors at 0x1000, in a memory of sevens. -/
def sampleTxMem (first second : List Byte) : FlatMem :=
  ({ size := 0x10000, byte := fun _ => 7 } : FlatMem).putBytes 0x1000 (first ++ second)

/-- A ring of eight descriptors at 0x1000, in use up to a tail. -/
def sampleTxLog (tail : Word) : Log :=
  ({ dev := E1000.new 0x52 0x54 0x00 0x12 0x34 0x56 } : Log).run (μ := FlatMem)
    [.write 0x3800 (Word.toLeBytes 0x1000 4), .write 0x3808 (Word.toLeBytes 128 4),
      .write 0x0400 (Word.toLeBytes 2 4), .write 0x3818 (Word.toLeBytes tail 4)]

/-- A frame of two buffers, the second with EOP. -/
def sampleFrameMem : FlatMem := sampleTxMem (sampleData 0x2000 3 0) (sampleLegacy 0x3000 2 9)

/-- It is sent whole. -/
theorem two_buffers_sent_whole :
    (HandlesRing (sampleTxLog 2).dev ((sampleTxLog 2).dev.processTx sampleFrameMem) ∧
      FramesWhole
        ((sampleTxLog 2).handled ++ ((sampleTxLog 2).dev.processTx sampleFrameMem).handled)
        ((sampleTxLog 2).taken ++ ((sampleTxLog 2).dev.processTx sampleFrameMem).dev.txQueue)) ∧
      ((sampleTxLog 2).dev.processTx sampleFrameMem).dev.txQueue = [[7, 7, 7, 7, 7]] :=
  ⟨process_tx_ring_and_frames _ _ _ _ _ _ _ _ (sampleTxLog 2) rfl
    (List.all_eq_true.mp (by decide +kernel)), by decide +kernel⟩

/-- With a first buffer of 16385 bytes, all of it readable, the frame that is sent is the second
buffer alone; and with a tail outside the ring, the call stops after one round, before the tail. -/
theorem oversized_buffer_left_out :
    let w := (sampleTxLog 2).dev.processTx
      (sampleTxMem (sampleData 0x2000 16385 0) (sampleLegacy 0x3000 1 9))
    let v := (sampleTxLog 9).dev.processTx sampleFrameMem
    (w.handled.map fun h => h.buffer.map TxBuffer.len) = [some 16385, some 1] ∧
      (∀ h ∈ w.handled, h.Readable) ∧ w.dev.txQueue = [[7]] ∧
      v.handled.length = 8 ∧ v.dev.tdh ≠ v.dev.tdt := by
  decide +kernel

end E1000

end Rax.Devices

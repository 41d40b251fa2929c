import Rax.X86.PlainAccess

/-!
# What a guest write stores

A write is stored in pieces that end at page boundaries. A write that crosses a boundary
translates and checks all its pieces before it stores one, so it is all or nothing. A write
inside a page is handed to the memory without a check and may store a leading part when
mapped memory ends inside the range.

Pieces whose first byte belongs to the interrupt controller or to the PCI aperture go to the
device. Two pieces of a long write may fall on the same frame; then the later one stays.
-/

namespace Rax.X86

variable {δ : Type} {memory : GuestMemory}

namespace GuestMemory

variable {m : GuestMemory} {a : Word} {bs : List Byte}

theorem mapped_of_inRam {n : Nat} (h : m.inRam a n = true) : m.Mapped a n := by
  simp only [inRam, Bool.and_eq_true, decide_eq_true_eq] at h
  intro i hi
  refine m.ram_mapped _ (BitVec.lt_def.mpr ?_)
  have hlen := m.ramLen.isLt
  rw [BitVec.toNat_add, BitVec.toNat_ofNat]
  omega

end GuestMemory

namespace Mmu

variable {m : Mmu δ} {sregs : SystemRegisters} {buf : List Byte} {chunks : List Chunk}

/-- A piece that goes to memory: it does not start at a device. -/
def Chunk.Stored (m : Mmu δ) (c : Chunk) : Prop :=
  ¬ isLapicAddr c.paddr ∧ ¬ m.inPciAperture c.paddr

/-- The `i`-th byte of a piece goes to `x`. -/
def Chunk.At (c : Chunk) (i : Nat) (x : Word) : Prop :=
  i < c.len ∧ x = c.paddr + BitVec.ofNat 64 i

/-- The pieces of a write of `remaining` bytes from `addr` on: each ends with its page or with
the write, and lies where the tables lead. -/
inductive Placed (memory : GuestMemory) (sregs : SystemRegisters) :
    Word → Nat → Nat → List Chunk → Prop
  | nil (addr : Word) (offset : Nat) : Placed memory sregs addr offset 0 []
  | cons {addr p : Word} {offset remaining n : Nat} {chunks : List Chunk} :
      0 < remaining → n = min remaining (0x1000 - (addr &&& 0xFFF).toNat) →
      route memory addr .write sregs = .ok p →
      Placed memory sregs (addr + BitVec.ofNat 64 n) (offset + n) (remaining - n) chunks →
      Placed memory sregs addr offset remaining (⟨p, offset, n⟩ :: chunks)

/-- Pieces stay inside the buffer and inside a page. -/
theorem Placed.bounds {addr : Word} {offset remaining : Nat}
    (h : Placed memory sregs addr offset remaining chunks) :
    ∀ c ∈ chunks, c.offset + c.len ≤ offset + remaining ∧ c.len ≤ 0x1000 := by
  induction h with
  | nil addr offset => exact fun c hc => absurd hc List.not_mem_nil
  | cons hpos hn hroute hrest ih =>
    intro c hc
    rcases List.mem_cons.mp hc with rfl | hc
    · exact ⟨by dsimp only; omega, by dsimp only; omega⟩
    · have := ih c hc
      omega

/-- What a memory holds after the pieces were stored in order: a byte of a stored piece is
there unless a later stored piece covers it, and everything else is as it was. -/
structure HoldsPieces (m : Mmu δ) (buf : List Byte) (chunks : List Chunk)
    (memory : GuestMemory) : Prop where
  written : ∀ pre c post i x, chunks = pre ++ c :: post → c.Stored m → c.At i x →
    (∀ c' ∈ post, c'.Stored m → ∀ j, ¬ c'.At j x) → memory.byteAt x = buf[c.offset + i]?
  kept : ∀ x, (∀ c ∈ chunks, c.Stored m → ∀ i, ¬ c.At i x) →
    memory.byteAt x = m.memory.byteAt x

theorem HoldsPieces.congr {m' : Mmu δ} (h : HoldsPieces m' buf chunks memory)
    (hmem : m'.memory = m.memory) (hlo : m'.pciApLo = m.pciApLo) (hhi : m'.pciApHi = m.pciApHi) :
    HoldsPieces m buf chunks memory := by
  have hstored (c : Chunk) : c.Stored m' ↔ c.Stored m := by
    simp only [Chunk.Stored, inPciAperture, hlo, hhi]
  obtain ⟨hwritten, hkept⟩ := h
  simp only [hstored, hmem] at hwritten hkept
  exact ⟨hwritten, hkept⟩

section Store

variable [Devices δ]

end Store

section Plan

variable [Devices δ]

/-- Mapped memory ends inside a write that stays in its page. -/
def Cut (m : Mmu δ) (vaddr : Word) (len : Nat) (sregs : SystemRegisters) : Prop :=
  (vaddr &&& 0xFFF).toNat + len ≤ 0x1000 ∧
    ∃ p, route m.memory vaddr .write sregs = .ok p ∧ ¬ isLapicAddr p ∧ ¬ m.inPciAperture p ∧
      (m.memory.byteAt p).isSome ∧ ¬ m.memory.Mapped p len

/-- What is stated of a write that ended in a given way with a given memory. -/
structure WriteOutcome (m : Mmu δ) (vaddr : Word) (buf : List Byte) (sregs : SystemRegisters)
    (result : Except Error Unit) (memory : GuestMemory) : Prop where
  failed : ∀ e, result = .error e → ¬ Cut m vaddr buf.length sregs → memory = m.memory
  stored : result = .ok () → ∃ chunks, Placed m.memory sregs vaddr 0 buf.length chunks ∧
    HoldsPieces m buf chunks memory

omit [Devices δ] in
/-- The outcome looks at the memory and the aperture of the unit only. -/
theorem WriteOutcome.congr {m' : Mmu δ} {vaddr : Word} {result : Except Error Unit}
    (h : WriteOutcome m' vaddr buf sregs result memory) (hmem : m'.memory = m.memory)
    (hlo : m'.pciApLo = m.pciApLo) (hhi : m'.pciApHi = m.pciApHi) :
    WriteOutcome m vaddr buf sregs result memory := by
  have hcut : Cut m' vaddr buf.length sregs ↔ Cut m vaddr buf.length sregs := by
    simp only [Cut, inPciAperture, hmem, hlo, hhi]
  refine ⟨fun e he hc => ?_, fun hok => ?_⟩
  · rw [h.failed e he (fun hc' => hc (hcut.mp hc')), hmem]
  · obtain ⟨chunks, hplaced, hpieces⟩ := h.stored hok
    rw [hmem] at hplaced
    exact ⟨chunks, hplaced, hpieces.congr hmem hlo hhi⟩

end Plan

section Inputs

/-- Memory that also lies behind the registers of the interrupt controller. -/
def wideMemory : GuestMemory where
  byteAt _ := some 0
  ramLen := 0x100000000
  lastAddr := 0xFFFFFFFF
  ram_mapped _ _ := rfl

end Inputs

end Mmu

end Rax.X86

import Rax.X86.Walk

/-!
# Address translation with a TLB

The memory-management unit caches completed walks in a direct-mapped TLB of 256 slots. Reads
and instruction fetches may be answered from the TLB; writes always walk the tables. A walk
that faults on an address of the kernel direct map is answered from the size of guest memory
instead.

The interrupt controller and the PCI bridge are an arbitrary device state `δ`.
-/

namespace Rax.X86

structure TlbEntry where
  tag : Word := 0
  physBase : Word := 0
  pageShift : Nat := 12
  valid : Bool := false

/-- A recorded guest access. -/
structure MemRecord where
  access : AccessType
  addr : Word
  size : Byte
  value : Word
  deriving DecidableEq

def codePageBitmapSize : Nat := 64 * 1024

def lapicBase : Word := 0xFEE00000
def lapicSize : Word := 0x1000

/-- The memory-management unit. -/
structure Mmu (δ : Type) where
  memory : GuestMemory
  tlb : Fin 256 → TlbEntry
  cachedCr3 : Word
  codePageBitmap : Fin codePageBitmapSize → Byte
  smcDirtyPages : List Word
  devices : δ
  ramFastLen : Word
  pciApLo : Word
  pciApHi : Word
  memRecOn : Bool
  fetchActive : Bool
  memRec : List MemRecord

namespace Mmu

variable {δ : Type}

/-- A fresh unit: no valid TLB entry, no code page, no PCI aperture. -/
def new (memory : GuestMemory) (devices : δ) : Mmu δ where
  memory := memory
  tlb _ := {}
  cachedCr3 := 0
  codePageBitmap _ := 0
  smcDirtyPages := []
  devices := devices
  ramFastLen := if memory.ramLen ≤ lapicBase then memory.ramLen else lapicBase
  pciApLo := BitVec.allOnes 64
  pciApHi := 0
  memRecOn := false
  fetchActive := false
  memRec := []

end Mmu

def cr0Pe : Word := 1 <<< 0
def cr0Pg : Word := 1 <<< 31
def eferLme : Word := 1 <<< 8
def eferLma : Word := 1 <<< 10

def directMapBase : Word := 0xffff888000000000
def directMapEnd : Word := 0xffffc87fffffffff

def pagingEnabled (sregs : SystemRegisters) : Prop :=
  sregs.cr0 &&& cr0Pg ≠ 0 ∧ sregs.cr0 &&& cr0Pe ≠ 0
  deriving Decidable

def longMode (sregs : SystemRegisters) : Prop :=
  sregs.efer &&& eferLma ≠ 0 ∧ sregs.efer &&& eferLme ≠ 0
  deriving Decidable

/-- Bits 63:48 repeat bit 47. -/
def isCanonical (vaddr : Word) : Prop := (vaddr <<< 16).sshiftRight 16 = vaddr
  deriving Decidable

/-- Whether the code segment runs at privilege level 3. -/
def isUser (sregs : SystemRegisters) : Bool := sregs.csSelector &&& 0x3 == 3

def isWrite : AccessType → Bool
  | .write => true
  | _ => false

/-- The virtual page number. -/
def vpn (vaddr : Word) : Word := vaddr >>> 12

def tlbIndex (vaddr : Word) : Fin 256 := Fin.ofNat 256 (vpn vaddr).toNat

def tlbTag (vaddr cr3 : Word) : Word := vpn vaddr ^^^ (((cr3 >>> 12) &&& 0xFFFFFF) <<< 36)

namespace Mmu

variable {δ : Type}

def flushTlb (m : Mmu δ) : Mmu δ :=
  { m with tlb := fun i => { m.tlb i with valid := false } }

/-- Every invalidation drops the whole TLB. -/
def invlpg (m : Mmu δ) (_vaddr : Word) : Mmu δ := m.flushTlb

/-- Drop the TLB when CR3 is not the one its entries were filled under. -/
def syncCr3 (m : Mmu δ) (cr3 : Word) : Mmu δ :=
  if cr3 ≠ m.cachedCr3 then { m.flushTlb with cachedCr3 := cr3 } else m

/-- The physical address a valid entry with the right tag gives. -/
def tlbLookup (m : Mmu δ) (vaddr cr3 : Word) : Option Word :=
  let entry := m.tlb (tlbIndex vaddr)
  if entry.valid = true ∧ entry.tag = tlbTag vaddr cr3 then
    some (entry.physBase ||| (vaddr &&& Word.lowMask entry.pageShift))
  else none

/-- Cache the leaf of a completed walk. -/
def fillTlb (m : Mmu δ) (index : Fin 256) (tag : Word) (leaf : Leaf) : Mmu δ :=
  { m with
    tlb := Function.update m.tlb index
      { tag := tag, physBase := leaf.base, pageShift := leaf.size.shift, valid := true } }

/-- The full walk, which caches its leaf when it succeeds. -/
def translateSlow (m : Mmu δ) (vaddr : Word) (access : AccessType) (sregs : SystemRegisters)
    (index : Fin 256) (tag : Word) : Except Error Word × Mmu δ :=
  if ¬ longMode sregs then (.error (.emulator .longModeOnly), m)
  else
    match walk m.memory sregs.cr3 vaddr (isUser sregs) (isWrite access) with
    | .ok leaf => (.ok (leaf.phys vaddr), m.fillTlb index tag leaf)
    | .error e => (.error e, m)

/-- Answer a fault on the kernel direct map when the address lies in guest memory. -/
def tryDirectMapFallback (m : Mmu δ) (vaddr errorCode : Word) : Except Error Word :=
  if directMapBase ≤ vaddr ∧ vaddr ≤ directMapEnd ∧
      vaddr - directMapBase < m.memory.memorySize then
    .ok (vaddr - directMapBase)
  else .error (.pageFault vaddr errorCode)

/-- The TLB answers an access only if it is not a write. -/
def tlbAnswer (m : Mmu δ) (vaddr : Word) (access : AccessType) (cr3 : Word) : Option Word :=
  if isWrite access then none else m.tlbLookup vaddr cr3

/-- Translate a virtual address; the unit is returned also when the translation fails. -/
def translate (m : Mmu δ) (vaddr : Word) (access : AccessType) (sregs : SystemRegisters) :
    Except Error Word × Mmu δ :=
  if ¬ pagingEnabled sregs then (.ok vaddr, m)
  else if longMode sregs ∧ ¬ isCanonical vaddr then (.error (.generalProtection 0), m)
  else
    let m := m.syncCr3 sregs.cr3
    match m.tlbAnswer vaddr access sregs.cr3 with
    | some paddr => (.ok paddr, m)
    | none =>
        match m.translateSlow vaddr access sregs (tlbIndex vaddr) (tlbTag vaddr sregs.cr3) with
        | (.ok paddr, m) => (.ok paddr, m)
        | (.error (.pageFault vaddr errorCode), m) => (m.tryDirectMapFallback vaddr errorCode, m)
        | (.error e, m) => (.error e, m)

/-! ## The outcomes of a translation -/

@[simp] theorem flushTlb_memory (m : Mmu δ) : m.flushTlb.memory = m.memory := rfl

@[simp] theorem flushTlb_valid (m : Mmu δ) (i : Fin 256) :
    (m.flushTlb.tlb i).valid = false := rfl

@[simp] theorem syncCr3_memory (m : Mmu δ) (cr3 : Word) :
    (m.syncCr3 cr3).memory = m.memory := by
  unfold syncCr3
  split <;> rfl

@[simp] theorem syncCr3_cachedCr3 (m : Mmu δ) (cr3 : Word) :
    (m.syncCr3 cr3).cachedCr3 = cr3 := by
  unfold syncCr3
  split
  · rfl
  · simp_all

@[simp] theorem fillTlb_memory (m : Mmu δ) (i : Fin 256) (tag : Word) (leaf : Leaf) :
    (m.fillTlb i tag leaf).memory = m.memory := rfl

@[simp] theorem fillTlb_cachedCr3 (m : Mmu δ) (i : Fin 256) (tag : Word) (leaf : Leaf) :
    (m.fillTlb i tag leaf).cachedCr3 = m.cachedCr3 := rfl

/-- Paging is on and the address, in long mode, is canonical. -/
def Paged (vaddr : Word) (sregs : SystemRegisters) : Prop :=
  pagingEnabled sregs ∧ (longMode sregs → isCanonical vaddr)
  deriving Decidable

/-- Everything a translation can do: its result and the unit it leaves. -/
inductive Translates (m : Mmu δ) (vaddr : Word) (access : AccessType)
    (sregs : SystemRegisters) : Except Error Word → Mmu δ → Prop
  | unpaged : ¬ pagingEnabled sregs → Translates m vaddr access sregs (.ok vaddr) m
  | nonCanonical : pagingEnabled sregs → longMode sregs → ¬ isCanonical vaddr →
      Translates m vaddr access sregs (.error (.generalProtection 0)) m
  | hit {paddr : Word} : Paged vaddr sregs →
      (m.syncCr3 sregs.cr3).tlbAnswer vaddr access sregs.cr3 = some paddr →
      Translates m vaddr access sregs (.ok paddr) (m.syncCr3 sregs.cr3)
  | notLongMode : Paged vaddr sregs →
      (m.syncCr3 sregs.cr3).tlbAnswer vaddr access sregs.cr3 = none → ¬ longMode sregs →
      Translates m vaddr access sregs (.error (.emulator .longModeOnly)) (m.syncCr3 sregs.cr3)
  | walked {leaf : Leaf} : Paged vaddr sregs →
      (m.syncCr3 sregs.cr3).tlbAnswer vaddr access sregs.cr3 = none → longMode sregs →
      walk m.memory sregs.cr3 vaddr (isUser sregs) (isWrite access) = .ok leaf →
      Translates m vaddr access sregs (.ok (leaf.phys vaddr))
        ((m.syncCr3 sregs.cr3).fillTlb (tlbIndex vaddr) (tlbTag vaddr sregs.cr3) leaf)
  | faulted {errorCode : Word} : Paged vaddr sregs →
      (m.syncCr3 sregs.cr3).tlbAnswer vaddr access sregs.cr3 = none → longMode sregs →
      walk m.memory sregs.cr3 vaddr (isUser sregs) (isWrite access) =
        .error (.pageFault vaddr errorCode) →
      Translates m vaddr access sregs (m.tryDirectMapFallback vaddr errorCode)
        (m.syncCr3 sregs.cr3)
  | unreadable {paddr : Word} : Paged vaddr sregs →
      (m.syncCr3 sregs.cr3).tlbAnswer vaddr access sregs.cr3 = none → longMode sregs →
      walk m.memory sregs.cr3 vaddr (isUser sregs) (isWrite access) =
        .error (.emulator (.readPte paddr)) →
      Translates m vaddr access sregs (.error (.emulator (.readPte paddr)))
        (m.syncCr3 sregs.cr3)

theorem tryDirectMapFallback_syncCr3 (m : Mmu δ) (cr3 vaddr errorCode : Word) :
    (m.syncCr3 cr3).tryDirectMapFallback vaddr errorCode =
      m.tryDirectMapFallback vaddr errorCode := by
  simp only [tryDirectMapFallback, syncCr3_memory]

/-- Every translation has one of the listed outcomes. -/
theorem translate_spec (m : Mmu δ) (vaddr : Word) (access : AccessType)
    (sregs : SystemRegisters) :
    Translates m vaddr access sregs (m.translate vaddr access sregs).1
      (m.translate vaddr access sregs).2 := by
  unfold translate
  by_cases hpaging : pagingEnabled sregs
  swap
  · rw [if_pos hpaging]
    exact .unpaged hpaging
  rw [if_neg (not_not.mpr hpaging)]
  by_cases hcanon : longMode sregs ∧ ¬ isCanonical vaddr
  · rw [if_pos hcanon]
    exact .nonCanonical hpaging hcanon.1 hcanon.2
  rw [if_neg hcanon]
  have hpaged : Paged vaddr sregs :=
    ⟨hpaging, fun hlong => not_not.mp fun hc => hcanon ⟨hlong, hc⟩⟩
  cases hanswer : (m.syncCr3 sregs.cr3).tlbAnswer vaddr access sregs.cr3 with
  | some paddr =>
      simp only [hanswer]
      exact .hit hpaged hanswer
  | none =>
      simp only [hanswer, translateSlow, syncCr3_memory]
      by_cases hlong : longMode sregs
      swap
      · rw [if_pos hlong]
        exact .notLongMode hpaged hanswer hlong
      rw [if_neg (not_not.mpr hlong)]
      cases hwalk : walk m.memory sregs.cr3 vaddr (isUser sregs) (isWrite access) with
      | ok leaf => exact .walked hpaged hanswer hlong hwalk
      | error err =>
          rcases walk_error hwalk with ⟨code, rfl⟩ | ⟨paddr, rfl⟩
          · simp only [tryDirectMapFallback_syncCr3]
            exact .faulted hpaged hanswer hlong hwalk
          · exact .unreadable hpaged hanswer hlong hwalk

theorem translate_of_tlbAnswer {m : Mmu δ} {vaddr paddr : Word} {access : AccessType}
    {sregs : SystemRegisters} (hpaged : Paged vaddr sregs)
    (hanswer : (m.syncCr3 sregs.cr3).tlbAnswer vaddr access sregs.cr3 = some paddr) :
    (m.translate vaddr access sregs).1 = .ok paddr := by
  unfold translate
  rw [if_neg (not_not.mpr hpaged.1), if_neg fun h => h.2 (hpaged.2 h.1)]
  simp only [hanswer]

theorem tlbLookup_some_iff {m : Mmu δ} {vaddr cr3 paddr : Word} :
    m.tlbLookup vaddr cr3 = some paddr ↔
      (m.tlb (tlbIndex vaddr)).valid = true ∧
      (m.tlb (tlbIndex vaddr)).tag = tlbTag vaddr cr3 ∧
      paddr = (m.tlb (tlbIndex vaddr)).physBase |||
        (vaddr &&& Word.lowMask (m.tlb (tlbIndex vaddr)).pageShift) := by
  simp only [tlbLookup]
  split_ifs with h
  · simp [h, eq_comm]
  · simp only [not_and] at h
    simpa using fun hv ht => absurd ht (h hv)

/-- Only reads and fetches are answered from the TLB. -/
theorem tlbAnswer_some_iff {m : Mmu δ} {vaddr cr3 paddr : Word} {access : AccessType} :
    m.tlbAnswer vaddr access cr3 = some paddr ↔
      isWrite access = false ∧ m.tlbLookup vaddr cr3 = some paddr := by
  simp only [tlbAnswer]
  split_ifs with h <;> simp [h]

end Mmu

/-- Two addresses with one tag under one CR3 lie in one page. -/
theorem vpn_eq_of_tlbTag_eq {v w cr3 : Word} (h : tlbTag v cr3 = tlbTag w cr3) :
    vpn v = vpn w :=
  Word.xor_key_inj h

end Rax.X86

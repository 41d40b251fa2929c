import Rax.X86.Translate

/-!
# Guest writes and the self-modifying-code journal

Pages that were executed from are marked in a bitmap. Every write entry point records the
marked pages it touches in a journal, and the processor drains the journal at each
instruction boundary, dropping decoded and compiled code of those pages.

The journal notes the first and the last address of a write. `write_journals_iff` says
exactly when that covers the whole written range.
-/

namespace Rax.X86

variable {δ : Type}

/-- The interrupt controller and the PCI bridge, as far as stores reach them. -/
class Devices (δ : Type) where
  lapicWrite : δ → Word → BitVec 32 → δ
  mmioWrite : δ → Word → List Byte → δ

/-- The base address of the page of an address. -/
def pageBase (vaddr : Word) : Word := vaddr &&& ~~~0xFFF

def isLapicAddr (paddr : Word) : Prop := lapicBase ≤ paddr ∧ paddr < lapicBase + lapicSize
  deriving Decidable

instance : NeZero codePageBitmapSize := ⟨Nat.succ_ne_zero _⟩

def codePageBitmapMask : Nat := codePageBitmapSize * 8 - 1

/-- The bitmap byte and the bit in it that stand for the page of an address. -/
def codePageIndex (vaddr : Word) : Fin codePageBitmapSize × Byte :=
  let bitIndex := (vpn vaddr).toNat &&& codePageBitmapMask
  (Fin.ofNat codePageBitmapSize (bitIndex >>> 3), 1 <<< (bitIndex &&& 7))

/-- The little-endian bytes of a value. -/
def toLeBytes : (n : Nat) → Word → List Byte
  | 0, _ => []
  | n + 1, value => value.setWidth 8 :: toLeBytes n (value >>> 8)

@[simp] theorem length_toLeBytes (n : Nat) (value : Word) : (toLeBytes n value).length = n := by
  induction n generalizing value with
  | zero => rfl
  | succ n ih => simp [toLeBytes, ih]

/-- The little-endian value of the first eight bytes. -/
def leValue (buf : List Byte) : Word := Word.fromLeBytes (buf.take 8)

namespace Mmu

def markCodePage (m : Mmu δ) (vaddr : Word) : Mmu δ :=
  let (byteIdx, bitMask) := codePageIndex vaddr
  { m with
    codePageBitmap := Function.update m.codePageBitmap byteIdx
      (m.codePageBitmap byteIdx ||| bitMask) }

def isCodePage (m : Mmu δ) (vaddr : Word) : Prop :=
  m.codePageBitmap (codePageIndex vaddr).1 &&& (codePageIndex vaddr).2 ≠ 0

instance (m : Mmu δ) (vaddr : Word) : Decidable (m.isCodePage vaddr) :=
  inferInstanceAs (Decidable (_ ≠ _))

/-- Journal the page of an address if it is marked and not yet journalled. -/
def noteSmc (m : Mmu δ) (vaddr : Word) : Mmu δ :=
  if m.isCodePage vaddr ∧ pageBase vaddr ∉ m.smcDirtyPages then
    { m with smcDirtyPages := m.smcDirtyPages ++ [pageBase vaddr] }
  else m

def takeSmcDirty (m : Mmu δ) : List Word × Mmu δ :=
  (m.smcDirtyPages, { m with smcDirtyPages := [] })

def inPciAperture (m : Mmu δ) (paddr : Word) : Prop := m.pciApLo ≤ paddr ∧ paddr < m.pciApHi

instance (m : Mmu δ) (paddr : Word) : Decidable (m.inPciAperture paddr) :=
  inferInstanceAs (Decidable (_ ∧ _))

/-- Whether `len` bytes at `paddr` are plain RAM outside every device window. -/
def ramPtrHigh (m : Mmu δ) (len paddr : Word) : Bool :=
  !decide (m.inPciAperture paddr) &&
    (decide (len ≤ m.memory.ramLen) && decide (paddr ≤ m.memory.ramLen - len) &&
      !(decide (paddr < lapicBase + lapicSize) && decide (lapicBase < paddr + len)))

/-- Whether a typed access of `len` bytes may go to RAM directly. -/
def ramPtr (m : Mmu δ) (len paddr : Word) : Bool :=
  if len ≤ m.ramFastLen ∧ paddr ≤ m.ramFastLen - len then true else m.ramPtrHigh len paddr

/-- Append to the access log when recording is on. -/
def record (m : Mmu δ) (access : AccessType) (addr : Word) (size : Byte) (value : Word) :
    Mmu δ :=
  if m.memRecOn && !m.fetchActive then
    { m with memRec := m.memRec ++ [⟨access, addr, size, value⟩] }
  else m

/-- Store bytes in RAM. -/
def storeRam (m : Mmu δ) (paddr : Word) (buf : List Byte) : Mmu δ :=
  { m with memory := (m.memory.writeSlice paddr buf).2 }

variable [Devices δ]

/-- A store to the interrupt controller: one register, or two for eight bytes; other
lengths are dropped. -/
def lapicStore (m : Mmu δ) (paddr : Word) (buf : List Byte) : Mmu δ :=
  let aligned := (paddr - lapicBase) &&& ~~~0x3
  let value := (Word.fromLeBytes (buf.take 4)).setWidth 32
  if buf.length = 1 ∨ buf.length = 2 ∨ buf.length = 4 then
    { m with devices := Devices.lapicWrite m.devices aligned value }
  else if buf.length = 8 then
    let hi := (Word.fromLeBytes (buf.drop 4)).setWidth 32
    { m with
      devices := Devices.lapicWrite (Devices.lapicWrite m.devices aligned value)
        (aligned + 0x10) hi }
  else m

/-- Store bytes at a physical address: interrupt controller, PCI aperture, RAM, or any
other mapped memory. -/
def writePhys (m : Mmu δ) (paddr : Word) (buf : List Byte) : Except Error Unit × Mmu δ :=
  if isLapicAddr paddr then (.ok (), m.lapicStore paddr buf)
  else if m.inPciAperture paddr then
    (.ok (), { m with devices := Devices.mmioWrite m.devices paddr buf })
  else if m.memory.inRam paddr buf.length then (.ok (), m.storeRam paddr buf)
  else if (m.memory.writeSlice paddr buf).1 then (.ok (), m.storeRam paddr buf)
  else (.error (.emulator (.write paddr)), m.storeRam paddr buf)

/-- A part of a write that lies in one page. -/
structure Chunk where
  paddr : Word
  offset : Nat
  len : Nat

/-- Translate the pages of a crossing write from `addr` on, before any byte is stored.
Each round takes at least one byte, so `remaining` bounds the rounds. -/
def planChunks (m : Mmu δ) (sregs : SystemRegisters) :
    (fuel : Nat) → (addr : Word) → (offset remaining : Nat) →
      Except Error (List Chunk) × Mmu δ
  | 0, _, _, _ => (.ok [], m)
  | fuel + 1, addr, offset, remaining =>
      if remaining = 0 then (.ok [], m)
      else
        match m.translate addr .write sregs with
        | (.error e, m) => (.error e, m)
        | (.ok paddr, m) =>
            let bytesInPage := min remaining (0x1000 - (paddr &&& 0xFFF).toNat)
            if isLapicAddr paddr ∨ m.inPciAperture paddr ∨
                m.memory.inRam paddr bytesInPage ∨ m.memory.checkRange paddr bytesInPage then
              match planChunks m sregs fuel (addr + BitVec.ofNat 64 bytesInPage)
                  (offset + bytesInPage) (remaining - bytesInPage) with
              | (.ok chunks, m) => (.ok (⟨paddr, offset, bytesInPage⟩ :: chunks), m)
              | (.error e, m) => (.error e, m)
            else (.error (.emulator (.unmappedWrite paddr)), m)

/-- Store the planned chunks, stopping at the first failure. -/
def storeChunks (m : Mmu δ) (buf : List Byte) : List Chunk → Except Error Unit × Mmu δ
  | [] => (.ok (), m)
  | chunk :: chunks =>
      match m.writePhys chunk.paddr ((buf.drop chunk.offset).take chunk.len) with
      | (.ok (), m) => storeChunks m buf chunks
      | (.error e, m) => (.error e, m)

/-- A write that crosses a page boundary: every page is translated first. -/
def writeCrossing (m : Mmu δ) (vaddr : Word) (buf : List Byte) (sregs : SystemRegisters) :
    Except Error Unit × Mmu δ :=
  match m.planChunks sregs buf.length vaddr 0 buf.length with
  | (.ok chunks, m) => m.storeChunks buf chunks
  | (.error e, m) => (.error e, m)

/-- Translate for writing and hand the physical address to a store. -/
def writeAt (m : Mmu δ) (vaddr : Word) (sregs : SystemRegisters)
    (store : Mmu δ → Word → Except Error Unit × Mmu δ) : Except Error Unit × Mmu δ :=
  match m.translate vaddr .write sregs with
  | (.ok paddr, m) => store m paddr
  | (.error e, m) => (.error e, m)

/-- Log a store that succeeded. -/
def logged (result : Except Error Unit × Mmu δ) (log : Mmu δ → Mmu δ) :
    Except Error Unit × Mmu δ :=
  match result with
  | (.ok (), m) => (.ok (), log m)
  | (.error e, m) => (.error e, m)

/-- Journal the first and, for more than one byte, the last address of a write. -/
def noteWrite (m : Mmu δ) (vaddr : Word) (len : Nat) : Mmu δ :=
  let m := m.noteSmc vaddr
  if 1 < len then m.noteSmc (vaddr + (BitVec.ofNat 64 len - 1)) else m

/-- Write bytes at a virtual address. -/
def write (m : Mmu δ) (vaddr : Word) (buf : List Byte) (sregs : SystemRegisters) :
    Except Error Unit × Mmu δ :=
  let m := m.noteWrite vaddr buf.length
  logged
    (if (vaddr &&& 0xFFF).toNat + buf.length ≤ 0x1000 then
      m.writeAt vaddr sregs fun m paddr => m.writePhys paddr buf
    else m.writeCrossing vaddr buf sregs)
    fun m => m.record .write vaddr (BitVec.ofNat 8 (min buf.length 255)) (leValue buf)

/-- The registers of an implicit supervisor access. -/
def supervisor (sregs : SystemRegisters) : SystemRegisters :=
  { sregs with csSelector := sregs.csSelector &&& ~~~0x3 }

def writeSupervisor (m : Mmu δ) (vaddr : Word) (buf : List Byte) (sregs : SystemRegisters) :
    Except Error Unit × Mmu δ :=
  m.write vaddr buf (supervisor sregs)

/-- Store a typed value, directly when it lands in plain RAM. -/
def storeTyped (m : Mmu δ) (n : Nat) (value paddr : Word) : Except Error Unit × Mmu δ :=
  if m.ramPtr (BitVec.ofNat 64 n) paddr then (.ok (), m.storeRam paddr (toLeBytes n value))
  else m.writePhys paddr (toLeBytes n value)

/-- A typed write of `n` little-endian bytes: direct when it stays in its page. -/
def writeTyped (m : Mmu δ) (n : Nat) (vaddr value : Word) (sregs : SystemRegisters) :
    Except Error Unit × Mmu δ :=
  let m := m.noteSmc vaddr
  if (vaddr &&& 0xFFF).toNat + n ≤ 0x1000 then
    logged (m.writeAt vaddr sregs fun m paddr => m.storeTyped n value paddr)
      fun m => m.record .write vaddr (BitVec.ofNat 8 n) value
  else m.write vaddr (toLeBytes n value) sregs

def writeU8 (m : Mmu δ) (vaddr : Word) (value : BitVec 8) (sregs : SystemRegisters) :=
  m.writeTyped 1 vaddr (value.setWidth 64) sregs

def writeU16 (m : Mmu δ) (vaddr : Word) (value : BitVec 16) (sregs : SystemRegisters) :=
  m.writeTyped 2 vaddr (value.setWidth 64) sregs

def writeU32 (m : Mmu δ) (vaddr : Word) (value : BitVec 32) (sregs : SystemRegisters) :=
  m.writeTyped 4 vaddr (value.setWidth 64) sregs

def writeU64 (m : Mmu δ) (vaddr value : Word) (sregs : SystemRegisters) :=
  m.writeTyped 8 vaddr value sregs

/-- Store two quadwords: as two stores where devices are involved, else as one. -/
def storePair (m : Mmu δ) (low high paddr : Word) : Except Error Unit × Mmu δ :=
  if isLapicAddr paddr ∨ isLapicAddr (paddr + 8) ∨ m.inPciAperture paddr ∨
      m.inPciAperture (paddr + 8) then
    match m.writePhys paddr (toLeBytes 8 low) with
    | (.ok (), m) => m.writePhys (paddr + 8) (toLeBytes 8 high)
    | (.error e, m) => (.error e, m)
  else m.writePhys paddr (toLeBytes 8 low ++ toLeBytes 8 high)

/-- Two adjacent quadwords in one transaction. -/
def writeAlignedU64Pair (m : Mmu δ) (vaddr low high : Word) (sregs : SystemRegisters) :
    Except Error Unit × Mmu δ :=
  let m := (m.noteSmc vaddr).noteSmc (vaddr + 15)
  logged (m.writeAt vaddr sregs fun m paddr => m.storePair low high paddr)
    fun m => (m.record .write vaddr 8 low).record .write (vaddr + 8) 8 high

end Mmu

/-! ## Pages of a range -/

theorem pageBase_eq_iff {v w : Word} : pageBase v = pageBase w ↔ vpn v = vpn w := by
  have hshift : ∀ u : Word, pageBase u = vpn u <<< 12 := by
    intro u
    rw [vpn, BitVec.shiftLeft_ushiftRight]
    rfl
  refine ⟨fun h => ?_, fun h => by rw [hshift, hshift, h]⟩
  rw [hshift, hshift] at h
  have hnat := congrArg BitVec.toNat h
  have hv := v.isLt
  have hw := w.isLt
  apply BitVec.eq_of_toNat_eq
  simp only [vpn, BitVec.toNat_shiftLeft, BitVec.toNat_ushiftRight, Nat.shiftLeft_eq,
    Nat.shiftRight_eq_div_pow] at hnat ⊢
  omega

/-- An offset that stays below the page boundary stays in the page. -/
theorem vpn_add_of_offset {v : Word} {i : Nat} (h : (v &&& 0xFFF).toNat + i < 0x1000) :
    vpn (v + BitVec.ofNat 64 i) = vpn v := by
  have hoff : (v &&& 0xFFF).toNat = v.toNat % 4096 := by
    rw [BitVec.toNat_and]
    exact Nat.and_two_pow_sub_one_eq_mod v.toNat 12
  have hv := v.isLt
  apply BitVec.eq_of_toNat_eq
  simp only [vpn, BitVec.toNat_ushiftRight, Nat.shiftRight_eq_div_pow, BitVec.toNat_add,
    BitVec.toNat_ofNat]
  omega

/-- The last address of a write. -/
def lastAddress (vaddr : Word) (len : Nat) : Word := vaddr + (BitVec.ofNat 64 len - 1)

theorem lastAddress_succ (vaddr : Word) (n : Nat) :
    lastAddress vaddr (n + 1) = vaddr + BitVec.ofNat 64 n := by
  rw [lastAddress, BitVec.ofNat_add]
  exact congrArg (vaddr + ·) (BitVec.add_sub_cancel _ _)

namespace Mmu

theorem isCodePage_of_pageBase_eq {m : Mmu δ} {v w : Word} (h : pageBase v = pageBase w) :
    m.isCodePage v ↔ m.isCodePage w := by
  simp only [isCodePage, codePageIndex, pageBase_eq_iff.mp h]

/-- The marked pages and the journal are the same. -/
structure SameJournal (m m' : Mmu δ) : Prop where
  bitmap : m'.codePageBitmap = m.codePageBitmap
  journal : m'.smcDirtyPages = m.smcDirtyPages

namespace SameJournal

theorem refl (m : Mmu δ) : SameJournal m m := ⟨rfl, rfl⟩

theorem trans {m₁ m₂ m₃ : Mmu δ} (h : SameJournal m₁ m₂) (h' : SameJournal m₂ m₃) :
    SameJournal m₁ m₃ :=
  ⟨h'.bitmap.trans h.bitmap, h'.journal.trans h.journal⟩

end SameJournal

theorem syncCr3_sameJournal (m : Mmu δ) (cr3 : Word) : SameJournal m (m.syncCr3 cr3) := by
  unfold syncCr3
  split <;> exact ⟨rfl, rfl⟩

theorem translate_sameJournal (m : Mmu δ) (vaddr : Word) (access : AccessType)
    (sregs : SystemRegisters) : SameJournal m (m.translate vaddr access sregs).2 := by
  have hsync := syncCr3_sameJournal m sregs.cr3
  have key : ∀ r m', Translates m vaddr access sregs r m' → SameJournal m m' := by
    intro r m' hspec
    cases hspec with
    | unpaged => exact .refl m
    | nonCanonical => exact .refl m
    | hit => exact hsync
    | notLongMode => exact hsync
    | walked => exact hsync.trans ⟨rfl, rfl⟩
    | faulted => exact hsync
    | unreadable => exact hsync
  exact key _ _ (translate_spec ..)

theorem record_sameJournal (m : Mmu δ) (access : AccessType) (addr : Word) (size : Byte)
    (value : Word) : SameJournal m (m.record access addr size value) := by
  unfold record
  split <;> exact ⟨rfl, rfl⟩

theorem planChunks_sameJournal (sregs : SystemRegisters) (fuel : Nat) (m : Mmu δ)
    (addr : Word) (offset remaining : Nat) :
    SameJournal m (m.planChunks sregs fuel addr offset remaining).2 := by
  induction fuel generalizing m addr offset remaining with
  | zero => exact .refl m
  | succ fuel ih =>
      rw [planChunks]
      split_ifs
      · exact .refl m
      have htr := translate_sameJournal m addr .write sregs
      rcases htranslate : m.translate addr .write sregs with ⟨_ | paddr, m₁⟩
      · rw [htranslate] at htr
        exact htr
      rw [htranslate] at htr
      simp only
      split_ifs
      · set k := min remaining (0x1000 - (paddr &&& 0xFFF).toNat)
        have hrest := ih m₁ (addr + BitVec.ofNat 64 k) (offset + k) (remaining - k)
        split <;> rename_i hplan <;> rw [hplan] at hrest <;> exact htr.trans hrest
      · exact htr

theorem writeAt_sameJournal (m : Mmu δ) (vaddr : Word) (sregs : SystemRegisters)
    {store : Mmu δ → Word → Except Error Unit × Mmu δ}
    (hstore : ∀ m paddr, SameJournal m (store m paddr).2) :
    SameJournal m (m.writeAt vaddr sregs store).2 := by
  unfold writeAt
  have htr := translate_sameJournal m vaddr .write sregs
  split <;> rename_i h <;> rw [h] at htr
  · exact htr.trans (hstore ..)
  · exact htr

theorem logged_sameJournal (result : Except Error Unit × Mmu δ) {log : Mmu δ → Mmu δ}
    (hlog : ∀ m, SameJournal m (log m)) : SameJournal result.2 (logged result log).2 := by
  unfold logged
  split
  · exact hlog _
  · exact .refl _

section Stores

variable [Devices δ]

theorem lapicStore_sameJournal (m : Mmu δ) (paddr : Word) (buf : List Byte) :
    SameJournal m (m.lapicStore paddr buf) := by
  simp only [lapicStore]
  split_ifs <;> exact ⟨rfl, rfl⟩

theorem writePhys_sameJournal (m : Mmu δ) (paddr : Word) (buf : List Byte) :
    SameJournal m (m.writePhys paddr buf).2 := by
  unfold writePhys
  split_ifs
  · exact lapicStore_sameJournal m paddr buf
  all_goals exact ⟨rfl, rfl⟩

theorem storeChunks_sameJournal (buf : List Byte) (chunks : List Chunk) (m : Mmu δ) :
    SameJournal m (m.storeChunks buf chunks).2 := by
  induction chunks generalizing m with
  | nil => exact .refl m
  | cons chunk chunks ih =>
      rw [storeChunks]
      have hw := writePhys_sameJournal m chunk.paddr ((buf.drop chunk.offset).take chunk.len)
      split <;> rename_i hstore <;> rw [hstore] at hw
      · exact hw.trans (ih _)
      · exact hw

theorem writeCrossing_sameJournal (m : Mmu δ) (vaddr : Word) (buf : List Byte)
    (sregs : SystemRegisters) : SameJournal m (m.writeCrossing vaddr buf sregs).2 := by
  unfold writeCrossing
  have hplan := planChunks_sameJournal sregs buf.length m vaddr 0 buf.length
  split <;> rename_i h <;> rw [h] at hplan
  · exact hplan.trans (storeChunks_sameJournal ..)
  · exact hplan

theorem storeTyped_sameJournal (m : Mmu δ) (n : Nat) (value paddr : Word) :
    SameJournal m (m.storeTyped n value paddr).2 := by
  unfold storeTyped
  split_ifs
  · exact ⟨rfl, rfl⟩
  · exact writePhys_sameJournal ..

theorem storePair_sameJournal (m : Mmu δ) (low high paddr : Word) :
    SameJournal m (m.storePair low high paddr).2 := by
  unfold storePair
  split_ifs
  · have hfirst := writePhys_sameJournal m paddr (toLeBytes 8 low)
    split <;> rename_i hw <;> rw [hw] at hfirst
    · exact hfirst.trans (writePhys_sameJournal ..)
    · exact hfirst
  · exact writePhys_sameJournal ..

end Stores

/-! ## What an entry point journals -/

/-- The pages a write of `len` bytes at `vaddr` adds to the journal: those of its first and
last address, if marked. -/
structure Noted (m : Mmu δ) (vaddr : Word) (len : Nat) (m' : Mmu δ) : Prop where
  bitmap : m'.codePageBitmap = m.codePageBitmap
  journal : ∀ page, page ∈ m'.smcDirtyPages ↔ page ∈ m.smcDirtyPages ∨
    (m.isCodePage vaddr ∧ page = pageBase vaddr) ∨
    (1 < len ∧ m.isCodePage (lastAddress vaddr len) ∧ page = pageBase (lastAddress vaddr len))

theorem Noted.trans_same {m m₁ m₂ : Mmu δ} {vaddr : Word} {len : Nat}
    (h : Noted m vaddr len m₁) (h' : SameJournal m₁ m₂) : Noted m vaddr len m₂ :=
  ⟨h'.bitmap.trans h.bitmap, fun page => by rw [h'.journal]; exact h.journal page⟩

@[simp] theorem noteSmc_codePageBitmap (m : Mmu δ) (vaddr : Word) :
    (m.noteSmc vaddr).codePageBitmap = m.codePageBitmap := by
  unfold noteSmc
  split <;> rfl

@[simp] theorem isCodePage_noteSmc (m : Mmu δ) (vaddr w : Word) :
    (m.noteSmc vaddr).isCodePage w ↔ m.isCodePage w := by
  simp only [isCodePage, noteSmc_codePageBitmap]

theorem mem_noteSmc {m : Mmu δ} {vaddr page : Word} :
    page ∈ (m.noteSmc vaddr).smcDirtyPages ↔
      page ∈ m.smcDirtyPages ∨ (m.isCodePage vaddr ∧ page = pageBase vaddr) := by
  unfold noteSmc
  split_ifs with h
  · simp only [List.mem_append, List.mem_singleton, h.1, true_and]
  · refine ⟨Or.inl, ?_⟩
    rintro (hmem | ⟨hcode, rfl⟩)
    · exact hmem
    · exact not_not.mp fun hn => h ⟨hcode, hn⟩

/-- Noting the first address is enough for a write that stays in its page. -/
theorem noted_of_within {m : Mmu δ} {vaddr : Word} {n : Nat}
    (h : (vaddr &&& 0xFFF).toNat + n ≤ 0x1000) : Noted m vaddr n (m.noteSmc vaddr) := by
  refine ⟨noteSmc_codePageBitmap .., fun page => ?_⟩
  rw [mem_noteSmc]
  refine ⟨fun hmem => hmem.imp_right Or.inl, ?_⟩
  rintro (hmem | hfirst | ⟨hlen, hcode, rfl⟩)
  · exact Or.inl hmem
  · exact Or.inr hfirst
  · obtain ⟨k, rfl⟩ := Nat.exists_eq_add_of_lt hlen
    rw [Nat.add_comm 1 k, lastAddress_succ] at hcode ⊢
    have hpage : pageBase (vaddr + BitVec.ofNat 64 (k + 1)) = pageBase vaddr :=
      pageBase_eq_iff.mpr (vpn_add_of_offset (by omega))
    exact Or.inr ⟨(isCodePage_of_pageBase_eq hpage).mp hcode, hpage⟩

theorem noted_noteSmc_pair (m : Mmu δ) (vaddr : Word) (len : Nat) (hlen : 1 < len) :
    Noted m vaddr len ((m.noteSmc vaddr).noteSmc (lastAddress vaddr len)) := by
  refine ⟨by simp, fun page => ?_⟩
  simp only [mem_noteSmc, isCodePage_noteSmc, hlen, true_and, or_assoc]

theorem noted_noteWrite (m : Mmu δ) (vaddr : Word) (len : Nat) :
    Noted m vaddr len (m.noteWrite vaddr len) := by
  simp only [noteWrite]
  split_ifs with h
  · exact noted_noteSmc_pair m vaddr len h
  · exact ⟨noteSmc_codePageBitmap .., fun page => by simp [mem_noteSmc, h]⟩

section EntryPoints

variable [Devices δ]

theorem write_noted (m : Mmu δ) (vaddr : Word) (buf : List Byte) (sregs : SystemRegisters) :
    Noted m vaddr buf.length (m.write vaddr buf sregs).2 := by
  refine ((noted_noteWrite m vaddr buf.length).trans_same ?_).trans_same
    (logged_sameJournal _ fun _ => record_sameJournal ..)
  split_ifs
  · exact writeAt_sameJournal _ _ _ fun _ _ => writePhys_sameJournal ..
  · exact writeCrossing_sameJournal ..

theorem writeTyped_noted (m : Mmu δ) (n : Nat) (vaddr value : Word) (sregs : SystemRegisters) :
    Noted m vaddr n (m.writeTyped n vaddr value sregs).2 := by
  simp only [writeTyped]
  split_ifs with hwithin
  · exact ((noted_of_within hwithin).trans_same
      (writeAt_sameJournal _ _ _ fun _ _ => storeTyped_sameJournal ..)).trans_same
      (logged_sameJournal _ fun _ => record_sameJournal ..)
  · -- the buffered path notes the first address once more
    have hnoted := write_noted (m.noteSmc vaddr) vaddr (toLeBytes n value) sregs
    rw [length_toLeBytes] at hnoted
    refine ⟨hnoted.bitmap.trans (noteSmc_codePageBitmap ..), fun page => ?_⟩
    rw [hnoted.journal, mem_noteSmc]
    simp only [isCodePage_noteSmc]
    tauto

theorem writeAlignedU64Pair_noted (m : Mmu δ) (vaddr low high : Word)
    (sregs : SystemRegisters) :
    Noted m vaddr 16 (m.writeAlignedU64Pair vaddr low high sregs).2 :=
  ((noted_noteSmc_pair m vaddr 16 (by decide)).trans_same
    (writeAt_sameJournal _ _ _ fun _ _ => storePair_sameJournal ..)).trans_same
    (logged_sameJournal _ fun _ => (record_sameJournal ..).trans (record_sameJournal ..))

end EntryPoints

end Mmu

/-- A guest write through any of the unit's entry points. -/
inductive WriteRequest
  | bytes (buf : List Byte)
  | supervisorBytes (buf : List Byte)
  | supervisorU64 (value : Word)
  | u8 (value : BitVec 8)
  | u16 (value : BitVec 16)
  | u32 (value : BitVec 32)
  | u64 (value : Word)
  | alignedU64Pair (low high : Word)

namespace WriteRequest

/-- The number of bytes written. -/
def len : WriteRequest → Nat
  | bytes buf => buf.length
  | supervisorBytes buf => buf.length
  | supervisorU64 _ => 8
  | u8 _ => 1
  | u16 _ => 2
  | u32 _ => 4
  | u64 _ => 8
  | alignedU64Pair _ _ => 16

def perform [Devices δ] (m : Mmu δ) (vaddr : Word) (sregs : SystemRegisters) :
    WriteRequest → Except Error Unit × Mmu δ
  | bytes buf => m.write vaddr buf sregs
  | supervisorBytes buf => m.writeSupervisor vaddr buf sregs
  | supervisorU64 value => m.writeSupervisor vaddr (toLeBytes 8 value) sregs
  | u8 value => m.writeU8 vaddr value sregs
  | u16 value => m.writeU16 vaddr value sregs
  | u32 value => m.writeU32 vaddr value sregs
  | u64 value => m.writeU64 vaddr value sregs
  | alignedU64Pair low high => m.writeAlignedU64Pair vaddr low high sregs

theorem perform_noted [Devices δ] (m : Mmu δ) (vaddr : Word) (sregs : SystemRegisters)
    (req : WriteRequest) : m.Noted vaddr req.len (req.perform m vaddr sregs).2 := by
  cases req with
  | bytes buf => exact Mmu.write_noted ..
  | supervisorBytes buf => exact Mmu.write_noted ..
  | supervisorU64 value =>
      have h := Mmu.write_noted m vaddr (toLeBytes 8 value) (Mmu.supervisor sregs)
      rwa [length_toLeBytes] at h
  | u8 value => exact Mmu.writeTyped_noted ..
  | u16 value => exact Mmu.writeTyped_noted ..
  | u32 value => exact Mmu.writeTyped_noted ..
  | u64 value => exact Mmu.writeTyped_noted ..
  | alignedU64Pair low high => exact Mmu.writeAlignedU64Pair_noted ..

end WriteRequest

/-! ## Draining the journal -/

/-- A decoded instruction; zero bytes mean an empty slot. -/
structure DecodeCacheEntry where
  rip : Word
  bytesLen : Nat

/-- The processor with its caches of decoded and compiled code. Compiled regions and
memos are keyed by address and mode; a region lists the pages it was compiled from. -/
structure Vcpu (δ : Type) where
  mmu : Mmu δ
  decodeCache : Fin 4096 → DecodeCacheEntry
  jitCache : List ((Word × Word) × Option (List Word))
  jitHot : List (Word × BitVec 32)
  jitIneligible : List ((Word × Word) × List Byte)
  jitIneligibleDirty : List (Word × Word)
  jitActiveSourceRange : Option (Word × Word)
  jitActiveRegionStale : Bool

/-- Code that starts at `rip` may overlap the page: it starts in it or in the one before. -/
def overlapsPage (page rip : Word) : Bool :=
  pageBase rip == page || pageBase rip == page - 0x1000

/-- Whether a compiled region may hold code of the page. -/
def regionOverlaps (page : Word) : (Word × Word) × Option (List Word) → Bool
  | ((rip, _), some pages) => if pages.isEmpty then overlapsPage page rip else pages.contains page
  | ((rip, _), none) => overlapsPage page rip

namespace Vcpu

/-- Drop all decoded and compiled code of a page. -/
def invalidateCodePage (cpu : Vcpu δ) (page : Word) : Vcpu δ :=
  { cpu with
    decodeCache := fun idx =>
      let entry := cpu.decodeCache idx
      if entry.bytesLen ≠ 0 ∧ pageBase entry.rip = page then ⟨0, 0⟩ else entry
    jitActiveRegionStale :=
      cpu.jitActiveRegionStale || cpu.jitActiveSourceRange.any fun (first, last) =>
        decide (first ≤ page) && decide (page ≤ last)
    jitCache := cpu.jitCache.filter fun region => !regionOverlaps page region
    jitHot := cpu.jitHot.filter fun hot => !overlapsPage page hot.1
    jitIneligibleDirty := cpu.jitIneligibleDirty ++
      (cpu.jitIneligible.map Prod.fst).filter fun key => overlapsPage page key.1 }

/-- Take the journal and drop the code of each page in it. -/
def drainSmc (cpu : Vcpu δ) : Vcpu δ :=
  if cpu.mmu.smcDirtyPages.isEmpty then cpu
  else
    let (pages, mmu) := cpu.mmu.takeSmcDirty
    pages.foldl invalidateCodePage { cpu with mmu := mmu }

/-- No cache holds code of the page any more; memos that may concern it are marked. -/
structure Invalidated (page : Word) (cpu : Vcpu δ) : Prop where
  decode : ∀ idx, (cpu.decodeCache idx).bytesLen ≠ 0 → pageBase (cpu.decodeCache idx).rip ≠ page
  region : ∀ region ∈ cpu.jitCache, regionOverlaps page region = false
  hot : ∀ hot ∈ cpu.jitHot, overlapsPage page hot.1 = false
  ineligible : ∀ memo ∈ cpu.jitIneligible, overlapsPage page memo.1.1 = true →
    memo.1 ∈ cpu.jitIneligibleDirty

theorem invalidateCodePage_invalidated (cpu : Vcpu δ) (page : Word) :
    Invalidated page (cpu.invalidateCodePage page) := by
  refine ⟨fun idx hlen hpage => ?_, fun region hr => ?_, fun hot hh => ?_, fun memo hm ho => ?_⟩
  · simp only [invalidateCodePage] at hlen hpage
    split_ifs at hlen hpage with h
    · exact hlen rfl
    · exact h ⟨hlen, hpage⟩
  · simpa using (List.mem_filter.mp hr).2
  · simpa using (List.mem_filter.mp hh).2
  · exact List.mem_append_right _ (List.mem_filter.mpr ⟨List.mem_map_of_mem hm, ho⟩)

theorem Invalidated.invalidateCodePage {cpu : Vcpu δ} {page : Word} (h : Invalidated page cpu)
    (other : Word) : Invalidated page (cpu.invalidateCodePage other) := by
  refine ⟨fun idx hlen hpage => ?_, fun region hr => ?_, fun hot hh => ?_, fun memo hm ho => ?_⟩
  · simp only [Vcpu.invalidateCodePage] at hlen hpage
    split_ifs at hlen hpage
    · exact hlen rfl
    · exact h.decode idx hlen hpage
  · exact h.region region (List.mem_filter.mp hr).1
  · exact h.hot hot (List.mem_filter.mp hh).1
  · exact List.mem_append_left _ (h.ineligible memo hm ho)

theorem invalidated_foldl {pages : List Word} {cpu : Vcpu δ} {page : Word}
    (h : Invalidated page cpu ∨ page ∈ pages) :
    Invalidated page (pages.foldl Vcpu.invalidateCodePage cpu) := by
  induction pages generalizing cpu with
  | nil => simpa using h
  | cons p pages ih =>
      refine ih ?_
      rcases h with h | h
      · exact Or.inl (h.invalidateCodePage p)
      · rcases List.mem_cons.mp h with rfl | h
        · exact Or.inl (invalidateCodePage_invalidated ..)
        · exact Or.inr h

theorem drainSmc_invalidated {cpu : Vcpu δ} {page : Word}
    (h : page ∈ cpu.mmu.smcDirtyPages) : Invalidated page cpu.drainSmc := by
  have hne : ¬ cpu.mmu.smcDirtyPages.isEmpty := by
    intro he
    simp [List.isEmpty_iff.mp he] at h
  unfold drainSmc
  rw [if_neg hne]
  exact invalidated_foldl (Or.inr h)

end Vcpu

/-! ## When a write journals all its marked pages -/

/-- All marked pages of the range are in the journal of `m'`. -/
def RangeJournalled (m : Mmu δ) (vaddr : Word) (len : Nat) (m' : Mmu δ) : Prop :=
  ∀ i < len, m.isCodePage (vaddr + BitVec.ofNat 64 i) →
    pageBase (vaddr + BitVec.ofNat 64 i) ∈ m'.smcDirtyPages

/-- The marked pages strictly between the first and the last page of the range are already
in the journal. -/
def InnerJournalled (m : Mmu δ) (vaddr : Word) (len : Nat) : Prop :=
  ∀ i < len, m.isCodePage (vaddr + BitVec.ofNat 64 i) →
    pageBase (vaddr + BitVec.ofNat 64 i) ≠ pageBase vaddr →
    pageBase (vaddr + BitVec.ofNat 64 i) ≠ pageBase (lastAddress vaddr len) →
    pageBase (vaddr + BitVec.ofNat 64 i) ∈ m.smcDirtyPages

theorem rangeJournalled_iff {m m' : Mmu δ} {vaddr : Word} {len : Nat}
    (h : m.Noted vaddr len m') :
    RangeJournalled m vaddr len m' ↔ InnerJournalled m vaddr len := by
  constructor
  · intro hall i hi hcode hfirst hlast
    rcases (h.journal _).mp (hall i hi hcode) with hmem | ⟨-, hpage⟩ | ⟨-, -, hpage⟩
    · exact hmem
    · exact absurd hpage hfirst
    · exact absurd hpage hlast
  · intro hinner i hi hcode
    rw [h.journal]
    by_cases hfirst : pageBase (vaddr + BitVec.ofNat 64 i) = pageBase vaddr
    · exact Or.inr (Or.inl ⟨(Mmu.isCodePage_of_pageBase_eq hfirst).mp hcode, hfirst⟩)
    by_cases hlast : pageBase (vaddr + BitVec.ofNat 64 i) = pageBase (lastAddress vaddr len)
    · have hlen : 1 < len := by
        by_contra hle
        obtain rfl : len = 1 := by omega
        exact hfirst (by rw [hlast, lastAddress_succ]; simp)
      exact Or.inr (Or.inr ⟨hlen, (Mmu.isCodePage_of_pageBase_eq hlast).mp hcode, hlast⟩)
    · exact Or.inl (hinner i hi hcode hfirst hlast)

/-- A write through any entry point leaves all marked pages of its range in the journal
exactly when those strictly between its first and last page were there before; draining the
journal then drops their code. -/
theorem write_journals_iff [Devices δ] (m : Mmu δ) (vaddr : Word) (sregs : SystemRegisters)
    (req : WriteRequest) :
    (RangeJournalled m vaddr req.len (req.perform m vaddr sregs).2 ↔
      InnerJournalled m vaddr req.len) ∧
    ∀ cpu : Vcpu δ, cpu.mmu = (req.perform m vaddr sregs).2 →
      ∀ page ∈ (req.perform m vaddr sregs).2.smcDirtyPages,
        Vcpu.Invalidated page cpu.drainSmc := by
  refine ⟨rangeJournalled_iff (req.perform_noted m vaddr sregs), ?_⟩
  intro cpu hmmu page hpage
  rw [← hmmu] at hpage
  exact Vcpu.drainSmc_invalidated hpage

/-! ## Writes to flat RAM -/

namespace Mmu

theorem translate_of_not_pagingEnabled {sregs : SystemRegisters}
    (h : ¬ pagingEnabled sregs) (m : Mmu δ) (vaddr : Word) (access : AccessType) :
    m.translate vaddr access sregs = (.ok vaddr, m) := by
  unfold translate
  rw [if_pos h]

theorem writeSlice_ramLen (m : GuestMemory) (a : Word) (bytes : List Byte) :
    (m.writeSlice a bytes).2.ramLen = m.ramLen := by
  induction bytes generalizing m a with
  | nil => rfl
  | cons b bs ih =>
      rw [GuestMemory.writeSlice]
      split_ifs
      · rw [ih]
        rfl
      · rfl

theorem planChunks_flat {sregs : SystemRegisters} (hflat : ¬ pagingEnabled sregs) (m : Mmu δ)
    (fuel : Nat) (addr : Word) (offset remaining : Nat)
    (hram : addr.toNat + remaining ≤ m.memory.ramLen.toNat) :
    ∃ chunks, m.planChunks sregs fuel addr offset remaining = (.ok chunks, m) ∧
      ∀ c ∈ chunks, c.paddr.toNat + c.len ≤ m.memory.ramLen.toNat := by
  induction fuel generalizing addr offset remaining with
  | zero => exact ⟨[], rfl, by simp⟩
  | succ fuel ih =>
      rw [planChunks]
      split_ifs with hrem
      · exact ⟨[], rfl, by simp⟩
      rw [translate_of_not_pagingEnabled hflat]
      simp only
      set k := min remaining (0x1000 - (addr &&& 0xFFF).toNat) with hk
      have hkle : k ≤ remaining := Nat.min_le_left ..
      have hlt := m.memory.ramLen.isLt
      have hnext : (addr + BitVec.ofNat 64 k).toNat ≤ addr.toNat + k := by
        rw [BitVec.toNat_add, BitVec.toNat_ofNat]
        exact Nat.le_trans (Nat.mod_le ..) (Nat.add_le_add_left (Nat.mod_le ..) _)
      obtain ⟨chunks, hplan, hchunks⟩ := ih (addr + BitVec.ofNat 64 k) (offset + k)
        (remaining - k) (by omega)
      have hin : m.memory.inRam addr k = true := by
        have hne : m.memory.ramLen ≠ 0 := by
          rintro h0
          rw [h0] at hram
          exact hrem (by simpa using (Nat.add_eq_zero_iff.mp (Nat.le_zero.mp hram)).2)
        simp only [GuestMemory.inRam, bne_iff_ne, ne_eq, hne, not_false_eq_true,
          Bool.and_eq_true, decide_eq_true_eq, true_and]
        omega
      rw [if_pos (Or.inr (Or.inr (Or.inl hin))), hplan]
      refine ⟨_, rfl, fun c hc => ?_⟩
      rcases List.mem_cons.mp hc with rfl | hc
      · show addr.toNat + k ≤ _
        omega
      · exact hchunks c hc

section Flat

variable [Devices δ]

theorem writePhys_ramLen (m : Mmu δ) (paddr : Word) (buf : List Byte) :
    (m.writePhys paddr buf).2.memory.ramLen = m.memory.ramLen := by
  unfold writePhys
  split_ifs
  · simp only [lapicStore]
    split_ifs <;> rfl
  · rfl
  all_goals exact writeSlice_ramLen ..

theorem writePhys_ok_of_inRam {m : Mmu δ} {paddr : Word} {buf : List Byte}
    (h : m.memory.inRam paddr buf.length) : (m.writePhys paddr buf).1 = .ok () := by
  unfold writePhys
  split_ifs <;> rfl

theorem storeChunks_flat (buf : List Byte) (chunks : List Chunk) (m : Mmu δ)
    (hne : m.memory.ramLen ≠ 0)
    (hram : ∀ c ∈ chunks, c.paddr.toNat + c.len ≤ m.memory.ramLen.toNat) :
    (m.storeChunks buf chunks).1 = .ok () := by
  induction chunks generalizing m with
  | nil => rfl
  | cons c chunks ih =>
      rw [storeChunks]
      have hlen := hram c List.mem_cons_self
      have hok : (m.writePhys c.paddr ((buf.drop c.offset).take c.len)).1 = .ok () := by
        refine writePhys_ok_of_inRam ?_
        have htake : ((buf.drop c.offset).take c.len).length ≤ c.len := List.length_take_le ..
        simp only [GuestMemory.inRam, bne_iff_ne, ne_eq, hne, not_false_eq_true,
          Bool.and_eq_true, decide_eq_true_eq, true_and]
        omega
      have hsize := writePhys_ramLen m c.paddr ((buf.drop c.offset).take c.len)
      rcases hw : m.writePhys c.paddr ((buf.drop c.offset).take c.len) with ⟨_ | ⟨⟩, m₁⟩
      · rw [hw] at hok
        cases hok
      rw [hw] at hsize
      refine ih m₁ (by rwa [hsize]) fun c' hc' => ?_
      rw [hsize]
      exact hram c' (List.mem_cons_of_mem _ hc')

/-- With paging off, a crossing write inside RAM succeeds. -/
theorem write_flat_ok {sregs : SystemRegisters} (hflat : ¬ pagingEnabled sregs) (m : Mmu δ)
    (vaddr : Word) (buf : List Byte) (hcross : 0x1000 < (vaddr &&& 0xFFF).toNat + buf.length)
    (hram : vaddr.toNat + buf.length ≤ m.memory.ramLen.toNat)
    (hne : m.memory.ramLen ≠ 0) : (m.write vaddr buf sregs).1 = .ok () := by
  have hmem : ∀ len, (m.noteWrite vaddr len).memory = m.memory := by
    intro len
    simp only [noteWrite, noteSmc]
    split_ifs <;> rfl
  obtain ⟨chunks, hplan, hchunks⟩ := planChunks_flat hflat (m.noteWrite vaddr buf.length)
    buf.length vaddr 0 buf.length (by rwa [hmem])
  have hstore : ((m.noteWrite vaddr buf.length).writeCrossing vaddr buf sregs).1 = .ok () := by
    rw [writeCrossing, hplan]
    exact storeChunks_flat buf chunks _ (by rwa [hmem]) hchunks
  simp only [write, if_neg (Nat.not_le.mpr hcross), logged]
  split
  · rfl
  · rename_i h
    rw [h] at hstore
    cases hstore

end Flat

end Mmu

instance : Devices Unit where
  lapicWrite _ _ _ := ()
  mmioWrite _ _ _ := ()

/-- 64 KiB of zeroed RAM. -/
def flatMemory : GuestMemory where
  byteAt a := if a < 0x10000 then some 0 else none
  ramLen := 0x10000
  lastAddr := 0xFFFF
  ram_mapped a ha := by
    rw [if_pos ha]
    rfl

/-- Three 2 KiB disk sectors stored at `0xC00` cover the pages at `0`, `0x1000` and `0x2000`.
When the middle one is marked, the write succeeds without journalling it. -/
theorem write_misses_middle_page :
    let m := (Mmu.new flatMemory ()).markCodePage 0x1000
    let sregs : SystemRegisters := ⟨0, 0, 0, 0⟩
    let req := WriteRequest.bytes (List.replicate 6144 0)
    (req.perform m 0xC00 sregs).1 = .ok () ∧
    m.isCodePage (0xC00 + BitVec.ofNat 64 1024) ∧
    pageBase (0xC00 + BitVec.ofNat 64 1024) ∉ (req.perform m 0xC00 sregs).2.smcDirtyPages := by
  -- the bytes do not matter, only their number
  have key : ∀ buf : List Byte, buf.length = 6144 →
      let m := (Mmu.new flatMemory ()).markCodePage 0x1000
      let sregs : SystemRegisters := ⟨0, 0, 0, 0⟩
      (m.write 0xC00 buf sregs).1 = .ok () ∧
      m.isCodePage (0xC00 + BitVec.ofNat 64 1024) ∧
      pageBase (0xC00 + BitVec.ofNat 64 1024) ∉ (m.write 0xC00 buf sregs).2.smcDirtyPages := by
    intro buf hlen m sregs
    refine ⟨?_, by decide, fun hmem => ?_⟩
    · refine Mmu.write_flat_ok (by decide) m 0xC00 buf ?_ ?_ (by decide)
      · rw [hlen]
        decide
      · rw [hlen]
        decide
    · have hnoted := Mmu.write_noted m 0xC00 buf sregs
      rw [hlen] at hnoted
      rw [hnoted.journal] at hmem
      revert hmem
      decide
  simpa only [WriteRequest.perform] using key (List.replicate 6144 0) List.length_replicate

end Rax.X86

import Rax.X86.WriteRange

/-!
# Typed accesses and the byte-slice path

A typed access of two, four or eight bytes that stays in its page asks whether its physical
range is plain RAM and goes there directly; the byte-slice access tests the interrupt
controller, the aperture and RAM one after the other. The direct test compares with a limit
that is set when the unit is made and lowered when a PCI bridge is attached. The two paths
agree as long as that limit stays below every device window.
-/

namespace Rax.X86

variable {δ : Type} {n : Nat}

/-- A value that fits comes back from its bytes. -/
theorem fromLeBytes_toLeBytes {value : Word} (hn : n ≤ 8) (h : value.toNat < 2 ^ (8 * n)) :
    Word.fromLeBytes (toLeBytes n value) = value := by
  induction n generalizing value with
  | zero =>
    apply BitVec.eq_of_toNat_eq
    have hzero : value.toNat = 0 := by simpa using h
    rw [hzero]
    rfl
  | succ n ih =>
    have hpow : 2 ^ (8 * (n + 1)) = 256 * 2 ^ (8 * n) := by
      rw [Nat.mul_succ, Nat.pow_add, Nat.mul_comm]
    have hshift : (value >>> 8).toNat = value.toNat / 256 := by
      rw [BitVec.toNat_ushiftRight, Nat.shiftRight_eq_div_pow]
    have hrest : Word.fromLeBytes (toLeBytes n (value >>> 8)) = value >>> 8 :=
      ih (by omega) (by omega)
    have hv := value.isLt
    apply BitVec.eq_of_toNat_eq
    rw [toLeBytes, Word.toNat_fromLeBytes_cons _ (by rw [hrest]; omega), hrest, hshift,
      BitVec.toNat_setWidth]
    omega

theorem leValue_of_length_le {buf : List Byte} (h : buf.length ≤ 8) :
    leValue buf = Word.fromLeBytes buf := by
  rw [leValue, List.take_of_length_le h]

theorem ofNat_min_255 (h : n ≤ 8) : BitVec.ofNat 8 (min n 255) = BitVec.ofNat 8 n := by
  rw [Nat.min_eq_left (by omega)]

namespace Mmu

/-- Attach a PCI bridge, with `devices` the devices that include it, and divert
`[apBase, apEnd)` from RAM to it. -/
def setPciBridge (m : Mmu δ) (devices : δ) (apBase apEnd : Word) : Mmu δ :=
  { m with
    devices := devices
    pciApLo := apBase
    pciApHi := apEnd
    ramFastLen := if apBase < m.ramFastLen then apBase else m.ramFastLen }

/-- The units that can occur: made by `new`, given any number of bridges, and changed
otherwise in any way that leaves the size of RAM, the direct limit and the aperture. -/
inductive Configured : Mmu δ → Prop
  | new (memory : GuestMemory) (devices : δ) : Configured (Mmu.new memory devices)
  | setPciBridge {m : Mmu δ} (devices : δ) (apBase apEnd : Word) :
      Configured m → Configured (m.setPciBridge devices apBase apEnd)
  | changed {m m' : Mmu δ} : m'.memory.ramLen = m.memory.ramLen → m'.ramFastLen = m.ramFastLen →
      m'.pciApLo = m.pciApLo → m'.pciApHi = m.pciApHi → Configured m → Configured m'

/-- The direct limit stays below the end of RAM and below both device windows. -/
structure FastWindow (m : Mmu δ) : Prop where
  ram : m.ramFastLen ≤ m.memory.ramLen
  lapic : m.ramFastLen ≤ lapicBase
  aperture : m.ramFastLen ≤ m.pciApLo

theorem fastWindow_new (memory : GuestMemory) (devices : δ) :
    FastWindow (Mmu.new memory devices) := by
  have hlow : (Mmu.new memory devices).ramFastLen ≤ lapicBase := by
    unfold new
    split_ifs with h
    · exact h
    · exact BitVec.le_refl _
  have hnone : lapicBase ≤ BitVec.allOnes 64 := by decide
  refine ⟨?_, hlow, BitVec.le_trans hlow hnone⟩
  unfold new
  split_ifs with h
  · exact BitVec.le_refl _
  · exact BitVec.le_of_lt (BitVec.not_le.mp h)

variable {m : Mmu δ}

/-- Attaching a bridge lowers the limit to the new aperture. -/
theorem FastWindow.setPciBridge (h : m.FastWindow) (devices : δ) (apBase apEnd : Word) :
    (m.setPciBridge devices apBase apEnd).FastWindow := by
  by_cases hbase : apBase < m.ramFastLen
  · have hle := BitVec.le_of_lt hbase
    have heq : (m.setPciBridge devices apBase apEnd).ramFastLen = apBase := if_pos hbase
    refine ⟨?_, ?_, ?_⟩ <;> rw [heq]
    · exact BitVec.le_trans hle h.ram
    · exact BitVec.le_trans hle h.lapic
    · exact BitVec.le_refl apBase
  · have heq : (m.setPciBridge devices apBase apEnd).ramFastLen = m.ramFastLen := if_neg hbase
    refine ⟨?_, ?_, ?_⟩ <;> rw [heq]
    · exact h.ram
    · exact h.lapic
    · exact BitVec.not_lt.mp hbase

theorem Configured.fastWindow (h : m.Configured) : m.FastWindow := by
  induction h with
  | new memory devices => exact fastWindow_new memory devices
  | setPciBridge devices apBase apEnd _ ih => exact ih.setPciBridge devices apBase apEnd
  | changed hram hfast hlo _ _ ih =>
    obtain ⟨ram, lapic, aperture⟩ := ih
    exact ⟨by rwa [hram, hfast], by rwa [hfast], by rwa [hfast, hlo]⟩

/-- What the direct test accepts is plain memory. -/
theorem plain_of_ramPtr {p : Word} (h : m.FastWindow) (hpos : 0 < n) (hn : n ≤ 8)
    (hptr : m.ramPtr (BitVec.ofNat 64 n) p = true) : m.Plain p n := by
  have hlen : (BitVec.ofNat 64 n).toNat = n := by
    rw [BitVec.toNat_ofNat]
    omega
  have hbase : lapicBase.toNat = 0xFEE00000 := rfl
  have hend : (lapicBase + lapicSize).toNat = 0xFEE01000 := rfl
  have hinRam : p.toNat + n ≤ m.memory.ramLen.toNat → m.memory.Mapped p n := by
    intro hle
    refine GuestMemory.mapped_of_inRam ?_
    have hne : m.memory.ramLen ≠ 0#64 := by
      intro hzero
      have hnat : m.memory.ramLen.toNat = 0 := congrArg BitVec.toNat hzero
      omega
    simp [GuestMemory.inRam, hne, hle]
  -- a range below `bound - n` ends below `bound`
  have hbelow {bound : Word} (hle : BitVec.ofNat 64 n ≤ bound)
      (hp : p ≤ bound - BitVec.ofNat 64 n) : p.toNat + n ≤ bound.toNat := by
    have hp' := BitVec.le_def.mp hp
    have hle' := BitVec.le_def.mp hle
    rw [BitVec.toNat_sub_of_le hle, hlen] at hp'
    omega
  unfold ramPtr at hptr
  by_cases hfast : BitVec.ofNat 64 n ≤ m.ramFastLen ∧ p ≤ m.ramFastLen - BitVec.ofNat 64 n
  · have hle := hbelow hfast.1 hfast.2
    have hram := BitVec.le_def.mp h.ram
    have hlapic := BitVec.le_def.mp h.lapic
    have hap := BitVec.le_def.mp h.aperture
    refine ⟨fun hl => ?_, fun ha => ?_, hinRam (by omega)⟩
    · have := BitVec.le_def.mp hl.1
      omega
    · have := BitVec.le_def.mp ha.1
      omega
  · rw [if_neg hfast] at hptr
    simp only [ramPtrHigh, Bool.and_eq_true, Bool.not_eq_true', decide_eq_false_iff_not,
      decide_eq_true_eq, Bool.and_eq_false_iff] at hptr
    obtain ⟨hap, ⟨hle, hp⟩, hout⟩ := hptr
    have hin := hbelow hle hp
    refine ⟨fun hl => ?_, hap, hinRam hin⟩
    have hlt := m.memory.ramLen.isLt
    have hlow := BitVec.le_def.mp hl.1
    rcases hout with hout | hout
    · exact hout hl.2
    · refine hout (BitVec.lt_def.mpr ?_)
      rw [BitVec.toNat_add, hlen]
      omega

theorem storeTyped_eq_writePhys [Devices δ] (h : m.FastWindow) (hpos : 0 < n) (hn : n ≤ 8)
    (value p : Word) :
    m.storeTyped n value p = m.writePhys p (toLeBytes n value) := by
  by_cases hptr : m.ramPtr (BitVec.ofNat 64 n) p = true
  · have hplain := plain_of_ramPtr h hpos hn hptr
    rw [storeTyped_plain hplain, writePhys_plain (by simpa using hplain)]
  · exact if_neg hptr

theorem loadTyped_eq_readPhys [DeviceReads δ] (h : m.FastWindow) (hpos : 0 < n) (hn : n ≤ 8)
    (p : Word) :
    m.loadTyped n p = seq (m.readPhys p n) fun bytes m => (.ok (Word.fromLeBytes bytes), m) := by
  by_cases hptr : m.ramPtr (BitVec.ofNat 64 n) p = true
  · have hplain := plain_of_ramPtr h hpos hn hptr
    rw [loadTyped_plain hplain, readPhys_plain hplain]
    rfl
  · exact if_neg hptr

/-- A page that was journalled is not journalled again. -/
theorem noteSmc_noteSmc (m : Mmu δ) {v w : Word} (h : pageBase w = pageBase v) :
    (m.noteSmc v).noteSmc w = m.noteSmc v := by
  have hcode := isCodePage_of_pageBase_eq (m := m) h
  by_cases hnote : m.isCodePage v ∧ pageBase v ∉ m.smcDirtyPages
  · have hmem : pageBase w ∈ (m.noteSmc v).smcDirtyPages := by
      unfold noteSmc
      rw [if_pos hnote, h]
      exact List.mem_append_right _ (List.mem_singleton.mpr rfl)
    exact if_neg fun hw => hw.2 hmem
  · have hsame : m.noteSmc v = m := if_neg hnote
    rw [hsame]
    exact if_neg fun hw => hnote ⟨hcode.mp hw.1, h ▸ hw.2⟩

/-- Inside a page the first address journals for the whole write. -/
theorem noteWrite_inPage (m : Mmu δ) {v : Word} (hpage : (v &&& 0xFFF).toNat + n ≤ 0x1000) :
    m.noteWrite v n = m.noteSmc v := by
  unfold noteWrite
  dsimp only
  split_ifs with hlen
  · obtain ⟨k, rfl⟩ : ∃ k, n = k + 1 := ⟨n - 1, by omega⟩
    refine noteSmc_noteSmc m (pageBase_eq_iff.mpr ?_)
    rw [show v + (BitVec.ofNat 64 (k + 1) - 1) = v + BitVec.ofNat 64 k from lastAddress_succ v k]
    exact vpn_add_of_offset (by omega)
  · rfl

theorem fastWindow_noteSmc (h : m.FastWindow) (v : Word) :
    (m.noteSmc v).FastWindow := by
  unfold noteSmc
  split_ifs
  · exact ⟨h.ram, h.lapic, h.aperture⟩
  · exact h

theorem fastWindow_setTlb (h : m.FastWindow) (t : TlbState) :
    (m.setTlb t).FastWindow := ⟨h.ram, h.lapic, h.aperture⟩

/-- A typed write is the write of its bytes: same result, and the same unit afterwards with
its memory, devices, TLB, journal and access log. -/
theorem writeTyped_eq_write [Devices δ] {value : Word} (h : m.FastWindow) (hpos : 0 < n)
    (hn : n ≤ 8) (hvalue : value.toNat < 2 ^ (8 * n)) (v : Word) (sregs : SystemRegisters) :
    m.writeTyped n v value sregs = m.write v (toLeBytes n value) sregs := by
  unfold writeTyped
  dsimp only
  split_ifs with hpage
  · have hstore : (m.noteSmc v).writeAt v sregs (fun m paddr => m.storeTyped n value paddr) =
        (m.noteSmc v).writeAt v sregs
          (fun m paddr => m.writePhys paddr (toLeBytes n value)) := by
      unfold writeAt
      rw [translate_eq]
      cases (m.noteSmc v).tlbState.result (m.noteSmc v).memory v .write sregs with
      | error e => rfl
      | ok p =>
        exact storeTyped_eq_writePhys (fastWindow_setTlb (fastWindow_noteSmc h v) _) hpos hn
          value p
    unfold write
    dsimp only
    rw [length_toLeBytes, noteWrite_inPage m hpage, if_pos hpage, hstore, ofNat_min_255 hn,
      leValue_of_length_le (by rwa [length_toLeBytes]), fromLeBytes_toLeBytes hn hvalue]
  · unfold write noteWrite
    dsimp only
    rw [noteSmc_noteSmc m rfl]

/-- A typed read is the read of its bytes: same value or error, and the same unit
afterwards. -/
theorem readTyped_eq_read [DeviceReads δ] (h : m.FastWindow) (hpos : 0 < n) (hn : n ≤ 8)
    (v : Word) (sregs : SystemRegisters) :
    m.readTyped n v sregs =
      seq (m.read v n sregs) fun bytes m => (.ok (Word.fromLeBytes bytes), m) := by
  unfold readTyped
  split_ifs with hpage
  · unfold read readAt
    rw [if_pos hpage, translate_eq]
    cases m.tlbState.result m.memory v .read sregs with
    | error e => rfl
    | ok p =>
      simp only [seq]
      rw [loadTyped_eq_readPhys (fastWindow_setTlb h _) hpos hn]
      rcases hread : (m.setTlb (m.tlbState.after m.memory v .read sregs)).readPhys p n with
        ⟨_ | bytes, m'⟩
      · rfl
      · have hlen := length_readPhys hread
        simp only [seq]
        rw [ofNat_min_255 hn, leValue_of_length_le (by omega)]
  · rfl

section Typed

variable [DeviceReads δ]

/-- A read whose value is known to fit in `w` bits. -/
def readWidth (w : Nat) (m : Mmu δ) (n : Nat) (vaddr : Word) (sregs : SystemRegisters) :
    Except Error (BitVec w) × Mmu δ :=
  seq (m.readTyped n vaddr sregs) fun value m => (.ok (value.setWidth w), m)

def readU16 (m : Mmu δ) (vaddr : Word) (sregs : SystemRegisters) := m.readWidth 16 2 vaddr sregs

def readU32 (m : Mmu δ) (vaddr : Word) (sregs : SystemRegisters) := m.readWidth 32 4 vaddr sregs

def readU64 (m : Mmu δ) (vaddr : Word) (sregs : SystemRegisters) := m.readWidth 64 8 vaddr sregs

/-- The value that a slice read of `n` bytes spells in little-endian order. -/
def readValue (w : Nat) (m : Mmu δ) (n : Nat) (vaddr : Word) (sregs : SystemRegisters) :
    Except Error (BitVec w) × Mmu δ :=
  seq (m.read vaddr n sregs) fun bytes m => (.ok ((Word.fromLeBytes bytes).setWidth w), m)

theorem readWidth_eq_readValue (h : m.FastWindow) (hpos : 0 < n) (hn : n ≤ 8) (w : Nat)
    (vaddr : Word) (sregs : SystemRegisters) :
    m.readWidth w n vaddr sregs = m.readValue w n vaddr sregs := by
  unfold readWidth readValue
  rw [readTyped_eq_read h hpos hn]
  rcases m.read vaddr n sregs with ⟨_ | _, _⟩ <;> rfl

/-- The typed accessors of a unit do at an address what the slice accessors do: they return
the same value or error and leave the same unit. -/
structure TypedAsSlices (m : Mmu δ) (vaddr : Word) (sregs : SystemRegisters) : Prop where
  readU16 : m.readU16 vaddr sregs = m.readValue 16 2 vaddr sregs
  readU32 : m.readU32 vaddr sregs = m.readValue 32 4 vaddr sregs
  readU64 : m.readU64 vaddr sregs = m.readValue 64 8 vaddr sregs
  writeU16 : ∀ value : BitVec 16,
    m.writeU16 vaddr value sregs = m.write vaddr (toLeBytes 2 (value.setWidth 64)) sregs
  writeU32 : ∀ value : BitVec 32,
    m.writeU32 vaddr value sregs = m.write vaddr (toLeBytes 4 (value.setWidth 64)) sregs
  writeU64 : ∀ value : Word,
    m.writeU64 vaddr value sregs = m.write vaddr (toLeBytes 8 value) sregs

/-- The typed accessors agree with the slice accessors on every unit that can occur, at every
address. -/
theorem Configured.typedAsSlices {m : Mmu δ} (h : m.Configured) (vaddr : Word)
    (sregs : SystemRegisters) :
    m.TypedAsSlices vaddr sregs := by
  have hfast := h.fastWindow
  have hwide {w : Nat} (hw : w ≤ 64) (value : BitVec w) :
      (value.setWidth 64).toNat < 2 ^ w := by
    rw [BitVec.toNat_setWidth_of_le hw]
    exact value.isLt
  constructor
  · exact readWidth_eq_readValue hfast (by decide) (by decide) 16 vaddr sregs
  · exact readWidth_eq_readValue hfast (by decide) (by decide) 32 vaddr sregs
  · exact readWidth_eq_readValue hfast (by decide) (by decide) 64 vaddr sregs
  · intro value
    exact writeTyped_eq_write hfast (by decide) (by decide) (hwide (by decide) value) vaddr sregs
  · intro value
    exact writeTyped_eq_write hfast (by decide) (by decide) (hwide (by decide) value) vaddr sregs
  · intro value
    exact writeTyped_eq_write hfast (by decide) (by decide) value.isLt vaddr sregs

end Typed

/-- RAM behind the interrupt controller, with an aperture below it that a first bridge had
placed higher: a quadword that runs from below into the controller's page. -/
theorem twoBridges_typedAsSlices :
    (((Mmu.new wideMemory ()).setPciBridge () 0xE0000000 0xF0000000).setPciBridge ()
      0xC0000000 0xD0000000).TypedAsSlices 0xFEDFFFFC ⟨0, 0, 0, 0⟩ :=
  Configured.typedAsSlices
    (.setPciBridge () 0xC0000000 0xD0000000
      (.setPciBridge () 0xE0000000 0xF0000000 (.new wideMemory ()))) 0xFEDFFFFC ⟨0, 0, 0, 0⟩

end Mmu

end Rax.X86

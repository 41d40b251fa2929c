import Rax.Lib.Result
import Rax.X86.Memory

/-!
# The four-level page-table walk

`walk` follows the tables from CR3 down to a 4 KiB, 2 MiB or 1 GiB leaf with the checks the
emulator makes at each level, in its order and with its error codes. `Maps` says what the
tables mean on their own: which entries lead from CR3 to the leaf of an address. The walk
succeeds exactly when the tables map the address and every entry on the way grants the
access (`walk_ok_iff`).

Accessed and dirty bits, the no-execute bit and protection keys are not consulted by the
source and do not occur here.
-/

namespace Rax.X86

/-- The system registers that address translation reads. -/
structure SystemRegisters where
  cr0 : Word
  cr3 : Word
  efer : Word
  csSelector : BitVec 16

inductive AccessType
  | read
  | write
  | execute
  deriving DecidableEq, Repr

/-- Failures of the emulator itself, as opposed to guest exceptions. -/
inductive EmulatorError
  | longModeOnly
  | readPte (paddr : Word)
  | read (paddr : Word)
  | write (paddr : Word)
  | unmappedWrite (paddr : Word)
  | stackOperandSize
  | farSelector (selector : BitVec 16)
  | descriptorLimit (selector : BitVec 16)
  | privilegeIncrease
  deriving DecidableEq, Repr

inductive Error
  | pageFault (vaddr errorCode : Word)
  | generalProtection (errorCode : Word)
  | emulator (reason : EmulatorError)
  deriving DecidableEq, Repr

namespace Flags

def present : Word := 1 <<< 0
def writable : Word := 1 <<< 1
def user : Word := 1 <<< 2
def hugePage : Word := 1 <<< 7

end Flags

def physBits : Nat := 48

/-- The bits of an entry's address field above the physical address width. -/
def pteRsvdMask : Word := ~~~(((1 : Word) <<< physBits) - 1) &&& 0x000FFFFFFFFFF000

/-- The size of the page a leaf entry maps. -/
inductive PageSize
  | page4K
  | page2M
  | page1G
  deriving DecidableEq, Repr

namespace PageSize

def shift : PageSize → Nat
  | page4K => 12
  | page2M => 21
  | page1G => 30

/-- The bits of a leaf entry that hold the page's physical address. -/
def baseMask : PageSize → Word
  | page4K => 0x000FFFFFFFFFF000
  | page2M => 0x000FFFFFFFE00000
  | page1G => 0x000FFFFFC0000000

/-- The bits of an address below the page. -/
def offsetMask : PageSize → Word
  | page4K => 0xFFF
  | page2M => 0x1FFFFF
  | page1G => 0x3FFFFFFF

/-- The address bits of a large leaf that must be clear in addition to `pteRsvdMask`. -/
def hugeRsvd : PageSize → Word
  | page4K => 0
  | page2M => 0x1FE000
  | page1G => 0x3FFFE000

theorem lowMask_shift (s : PageSize) : Word.lowMask s.shift = s.offsetMask := by
  cases s <;> decide

end PageSize

/-- What a completed walk found: the page's physical base and its size. -/
structure Leaf where
  base : Word
  size : PageSize
  deriving DecidableEq, Repr

/-- The physical address of `vaddr` inside the page of a leaf. -/
def Leaf.phys (leaf : Leaf) (vaddr : Word) : Word :=
  leaf.base ||| (vaddr &&& leaf.size.offsetMask)

def userBit (isUser : Bool) : Word := if isUser then 0x4 else 0

def writeBit (isWrite : Bool) : Word := if isWrite then 0x2 else 0

def pml4Index (vaddr : Word) : Word := (vaddr >>> 39) &&& 0x1FF
def pdptIndex (vaddr : Word) : Word := (vaddr >>> 30) &&& 0x1FF
def pdIndex (vaddr : Word) : Word := (vaddr >>> 21) &&& 0x1FF
def ptIndex (vaddr : Word) : Word := (vaddr >>> 12) &&& 0x1FF

/-- Read a page-table entry from physical memory. -/
def readPte (m : GuestMemory) (paddr : Word) : Except Error Word :=
  match m.readSlice paddr 8 with
  | some bytes => .ok (Word.fromLeBytes bytes)
  | none => .error (.emulator (.readPte paddr))

/-- The checks made on the entry of every level, in the order of the source. -/
def checkEntry (vaddr : Word) (isUser isWrite : Bool) (entry : Word) : Except Error Unit :=
  if entry &&& Flags.present = 0 then
    .error (.pageFault vaddr (userBit isUser ||| writeBit isWrite))
  else if entry &&& pteRsvdMask ≠ 0 then
    .error (.pageFault vaddr (userBit isUser ||| writeBit isWrite ||| 0x9))
  else if isUser ∧ entry &&& Flags.user = 0 then
    .error (.pageFault vaddr (userBit isUser ||| writeBit isWrite ||| 0x1))
  else if isWrite ∧ entry &&& Flags.writable = 0 then
    .error (.pageFault vaddr (userBit isUser ||| 0x3))
  else .ok ()

/-- Read the entry of one level and check it. -/
def fetchEntry (m : GuestMemory) (vaddr : Word) (isUser isWrite : Bool)
    (table index : Word) : Except Error Word := do
  let entry ← readPte m (table + index * 8)
  checkEntry vaddr isUser isWrite entry
  return entry

/-- The leaf of a large page, whose low address bits must be clear. -/
def hugeLeaf (vaddr : Word) (isUser isWrite : Bool) (size : PageSize) (entry : Word) :
    Except Error Leaf :=
  if entry &&& (pteRsvdMask ||| size.hugeRsvd) ≠ 0 then
    .error (.pageFault vaddr (userBit isUser ||| writeBit isWrite ||| 0x9))
  else .ok ⟨entry &&& size.baseMask, size⟩

/-- The next table an entry points to. -/
def nextTable (entry : Word) : Word := entry &&& 0x000FFFFFFFFFF000

def pml4Base (cr3 : Word) : Word := cr3 &&& ~~~0xFFF

/-- The walk PML4 → PDPT → PD → PT, ending early at a large page. -/
def walk (m : GuestMemory) (cr3 vaddr : Word) (isUser isWrite : Bool) :
    Except Error Leaf := do
  let pml4e ← fetchEntry m vaddr isUser isWrite (pml4Base cr3) (pml4Index vaddr)
  let pdpte ← fetchEntry m vaddr isUser isWrite (nextTable pml4e) (pdptIndex vaddr)
  if pdpte &&& Flags.hugePage ≠ 0 then
    hugeLeaf vaddr isUser isWrite .page1G pdpte
  else
    let pde ← fetchEntry m vaddr isUser isWrite (nextTable pdpte) (pdIndex vaddr)
    if pde &&& Flags.hugePage ≠ 0 then
      hugeLeaf vaddr isUser isWrite .page2M pde
    else
      let pte ← fetchEntry m vaddr isUser isWrite (nextTable pde) (ptIndex vaddr)
      return ⟨pte &&& PageSize.page4K.baseMask, .page4K⟩

/-! ## What the tables mean -/

/-- The entry permits user-mode access. -/
def UserAllowed (entry : Word) : Prop := entry &&& Flags.user ≠ 0

/-- The entry permits writes. -/
def WriteAllowed (entry : Word) : Prop := entry &&& Flags.writable ≠ 0

/-- The entry maps a large page. -/
abbrev IsHuge (entry : Word) : Prop := entry &&& Flags.hugePage ≠ 0

/-- The table holds a present, well-formed entry at the index. -/
structure EntryAt (m : GuestMemory) (table index entry : Word) : Prop where
  stored : readPte m (table + index * 8) = .ok entry
  present : entry &&& Flags.present ≠ 0
  reserved : entry &&& pteRsvdMask = 0

/-- The tables under `cr3` map the page of `vaddr`: the entries passed, outermost first,
and the leaf they end in. -/
inductive Maps (m : GuestMemory) (cr3 vaddr : Word) : List Word → Leaf → Prop
  | page1G {e₄ e₃ : Word} :
      EntryAt m (pml4Base cr3) (pml4Index vaddr) e₄ →
      EntryAt m (nextTable e₄) (pdptIndex vaddr) e₃ → IsHuge e₃ →
      e₃ &&& PageSize.page1G.hugeRsvd = 0 →
      Maps m cr3 vaddr [e₄, e₃] ⟨e₃ &&& PageSize.page1G.baseMask, .page1G⟩
  | page2M {e₄ e₃ e₂ : Word} :
      EntryAt m (pml4Base cr3) (pml4Index vaddr) e₄ →
      EntryAt m (nextTable e₄) (pdptIndex vaddr) e₃ → ¬ IsHuge e₃ →
      EntryAt m (nextTable e₃) (pdIndex vaddr) e₂ → IsHuge e₂ →
      e₂ &&& PageSize.page2M.hugeRsvd = 0 →
      Maps m cr3 vaddr [e₄, e₃, e₂] ⟨e₂ &&& PageSize.page2M.baseMask, .page2M⟩
  | page4K {e₄ e₃ e₂ e₁ : Word} :
      EntryAt m (pml4Base cr3) (pml4Index vaddr) e₄ →
      EntryAt m (nextTable e₄) (pdptIndex vaddr) e₃ → ¬ IsHuge e₃ →
      EntryAt m (nextTable e₃) (pdIndex vaddr) e₂ → ¬ IsHuge e₂ →
      EntryAt m (nextTable e₂) (ptIndex vaddr) e₁ →
      Maps m cr3 vaddr [e₄, e₃, e₂, e₁] ⟨e₁ &&& PageSize.page4K.baseMask, .page4K⟩

/-- The entries on the way grant the access. -/
structure Grants (isUser isWrite : Bool) (entries : List Word) : Prop where
  user : isUser = true → ∀ e ∈ entries, UserAllowed e
  write : isWrite = true → ∀ e ∈ entries, WriteAllowed e

variable {isUser isWrite : Bool}

@[simp] theorem grants_nil : Grants isUser isWrite [] :=
  ⟨fun _ _ h => by simp at h, fun _ _ h => by simp at h⟩

@[simp] theorem grants_cons {e : Word} {entries : List Word} :
    Grants isUser isWrite (e :: entries) ↔
      ((isUser = true → UserAllowed e) ∧ (isWrite = true → WriteAllowed e)) ∧
        Grants isUser isWrite entries := by
  constructor
  · intro h
    refine ⟨⟨fun hu => ?_, fun hw => ?_⟩, fun hu x hx => ?_, fun hw x hx => ?_⟩
    · exact h.user hu e (List.mem_cons_self ..)
    · exact h.write hw e (List.mem_cons_self ..)
    · exact h.user hu x (List.mem_cons_of_mem _ hx)
    · exact h.write hw x (List.mem_cons_of_mem _ hx)
  · rintro ⟨⟨hu, hw⟩, h⟩
    refine ⟨fun hu' x hx => ?_, fun hw' x hx => ?_⟩
    · rcases List.mem_cons.mp hx with rfl | hx
      · exact hu hu'
      · exact h.user hu' x hx
    · rcases List.mem_cons.mp hx with rfl | hx
      · exact hw hw'
      · exact h.write hw' x hx

/-! ## The walk against the tables -/

theorem checkEntry_ok_iff {vaddr entry : Word} :
    checkEntry vaddr isUser isWrite entry = .ok () ↔
      (entry &&& Flags.present ≠ 0 ∧ entry &&& pteRsvdMask = 0) ∧
        (isUser = true → UserAllowed entry) ∧ (isWrite = true → WriteAllowed entry) := by
  simp only [checkEntry, UserAllowed, WriteAllowed]
  split_ifs <;> simp_all

variable {err : Error}

theorem checkEntry_error {vaddr entry : Word}
    (h : checkEntry vaddr isUser isWrite entry = .error err) :
    ∃ code, err = .pageFault vaddr code := by
  simp only [checkEntry] at h
  split_ifs at h <;> cases h <;> exact ⟨_, rfl⟩

variable {m : GuestMemory}

theorem readPte_error {paddr : Word} (h : readPte m paddr = .error err) :
    err = .emulator (.readPte paddr) := by
  unfold readPte at h
  split at h
  · cases h
  · cases h
    rfl

theorem fetchEntry_ok_iff {vaddr table index entry : Word} :
    fetchEntry m vaddr isUser isWrite table index = .ok entry ↔
      EntryAt m table index entry ∧
        (isUser = true → UserAllowed entry) ∧ (isWrite = true → WriteAllowed entry) := by
  simp only [fetchEntry, Result.bind_ok_iff, pure, Except.pure, Except.ok.injEq]
  constructor
  · rintro ⟨e, hread, ⟨⟩, hcheck, rfl⟩
    obtain ⟨⟨hpresent, hreserved⟩, hallowed⟩ := checkEntry_ok_iff.mp hcheck
    exact ⟨⟨hread, hpresent, hreserved⟩, hallowed⟩
  · rintro ⟨⟨hread, hpresent, hreserved⟩, hallowed⟩
    exact ⟨entry, hread, (), checkEntry_ok_iff.mpr ⟨⟨hpresent, hreserved⟩, hallowed⟩, rfl⟩

/-- A walk fails with a page fault on the walked address or on an unreadable entry. -/
def WalkError (vaddr : Word) (err : Error) : Prop :=
  (∃ code, err = .pageFault vaddr code) ∨ ∃ paddr, err = .emulator (.readPte paddr)

theorem fetchEntry_error {vaddr table index : Word}
    (h : fetchEntry m vaddr isUser isWrite table index = .error err) :
    WalkError vaddr err := by
  simp only [fetchEntry, Result.bind_error_iff, pure, Except.pure] at h
  rcases h with hread | ⟨e, -, hcheck | ⟨_, -, hpure⟩⟩
  · exact Or.inr ⟨_, readPte_error hread⟩
  · exact Or.inl (checkEntry_error hcheck)
  · cases hpure

variable {leaf : Leaf}

theorem hugeLeaf_ok_iff {vaddr entry : Word} {size : PageSize}
    (hreserved : entry &&& pteRsvdMask = 0) :
    hugeLeaf vaddr isUser isWrite size entry = .ok leaf ↔
      entry &&& size.hugeRsvd = 0 ∧ leaf = ⟨entry &&& size.baseMask, size⟩ := by
  have hsplit : entry &&& (pteRsvdMask ||| size.hugeRsvd) = entry &&& size.hugeRsvd := by
    rw [BitVec.and_or_distrib_left, hreserved]
    exact BitVec.zero_or
  simp only [hugeLeaf, hsplit]
  split_ifs with h
  · exact ⟨nofun, fun hok => absurd hok.1 h⟩
  · simp only [ne_eq, not_not] at h
    simp [h, eq_comm]

theorem hugeLeaf_error {vaddr entry : Word} {size : PageSize}
    (h : hugeLeaf vaddr isUser isWrite size entry = .error err) :
    ∃ code, err = .pageFault vaddr code := by
  simp only [hugeLeaf] at h
  split_ifs at h
  cases h
  exact ⟨_, rfl⟩

/-- The walk succeeds exactly when the tables map the address and every entry on the way
grants the access. -/
theorem walk_ok_iff {cr3 vaddr : Word} :
    walk m cr3 vaddr isUser isWrite = .ok leaf ↔
      ∃ entries, Maps m cr3 vaddr entries leaf ∧ Grants isUser isWrite entries := by
  constructor
  · intro h
    simp only [walk, Result.bind_ok_iff, fetchEntry_ok_iff] at h
    obtain ⟨e₄, ⟨h₄, g₄⟩, e₃, ⟨h₃, g₃⟩, h⟩ := h
    split_ifs at h with huge₃
    · obtain ⟨hrsvd, rfl⟩ := (hugeLeaf_ok_iff h₃.reserved).mp h
      exact ⟨_, .page1G h₄ h₃ huge₃ hrsvd, by simpa only [grants_cons, grants_nil, and_true] using ⟨g₄, g₃⟩⟩
    simp only [Result.bind_ok_iff, fetchEntry_ok_iff] at h
    obtain ⟨e₂, ⟨h₂, g₂⟩, h⟩ := h
    split_ifs at h with huge₂
    · obtain ⟨hrsvd, rfl⟩ := (hugeLeaf_ok_iff h₂.reserved).mp h
      exact ⟨_, .page2M h₄ h₃ huge₃ h₂ huge₂ hrsvd,
        by simpa only [grants_cons, grants_nil, and_true] using ⟨g₄, g₃, g₂⟩⟩
    simp only [Result.bind_ok_iff, fetchEntry_ok_iff, pure, Except.pure,
      Except.ok.injEq] at h
    obtain ⟨e₁, ⟨h₁, g₁⟩, rfl⟩ := h
    exact ⟨_, .page4K h₄ h₃ huge₃ h₂ huge₂ h₁,
      by simpa only [grants_cons, grants_nil, and_true] using ⟨g₄, g₃, g₂, g₁⟩⟩
  · rintro ⟨entries, hmaps, hgrants⟩
    simp only [walk, Result.bind_ok_iff, fetchEntry_ok_iff]
    cases hmaps with
    | page1G h₄ h₃ huge hrsvd =>
        simp only [grants_cons, grants_nil, and_true] at hgrants
        refine ⟨_, ⟨h₄, hgrants.1⟩, _, ⟨h₃, hgrants.2⟩, ?_⟩
        rw [if_pos huge]
        exact (hugeLeaf_ok_iff h₃.reserved).mpr ⟨hrsvd, rfl⟩
    | page2M h₄ h₃ huge₃ h₂ huge₂ hrsvd =>
        simp only [grants_cons, grants_nil, and_true] at hgrants
        refine ⟨_, ⟨h₄, hgrants.1⟩, _, ⟨h₃, hgrants.2.1⟩, ?_⟩
        rw [if_neg huge₃]
        simp only [Result.bind_ok_iff, fetchEntry_ok_iff]
        refine ⟨_, ⟨h₂, hgrants.2.2⟩, ?_⟩
        rw [if_pos huge₂]
        exact (hugeLeaf_ok_iff h₂.reserved).mpr ⟨hrsvd, rfl⟩
    | page4K h₄ h₃ huge₃ h₂ huge₂ h₁ =>
        simp only [grants_cons, grants_nil, and_true] at hgrants
        refine ⟨_, ⟨h₄, hgrants.1⟩, _, ⟨h₃, hgrants.2.1⟩, ?_⟩
        rw [if_neg huge₃]
        simp only [Result.bind_ok_iff, fetchEntry_ok_iff]
        refine ⟨_, ⟨h₂, hgrants.2.2.1⟩, ?_⟩
        rw [if_neg huge₂]
        simp only [Result.bind_ok_iff, fetchEntry_ok_iff]
        exact ⟨_, ⟨h₁, hgrants.2.2.2⟩, rfl⟩

/-- A failed walk raises a page fault or reports an unreadable entry, nothing else. -/
theorem walk_error {cr3 vaddr : Word} (h : walk m cr3 vaddr isUser isWrite = .error err) :
    WalkError vaddr err := by
  simp only [walk, Result.bind_error_iff] at h
  rcases h with h | ⟨e₄, -, h | ⟨e₃, -, h⟩⟩
  · exact fetchEntry_error h
  · exact fetchEntry_error h
  split_ifs at h with huge₃
  · exact Or.inl (hugeLeaf_error h)
  simp only [Result.bind_error_iff] at h
  rcases h with h | ⟨e₂, -, h⟩
  · exact fetchEntry_error h
  split_ifs at h with huge₂
  · exact Or.inl (hugeLeaf_error h)
  simp only [Result.bind_error_iff, pure, Except.pure] at h
  rcases h with h | ⟨e₁, -, h⟩
  · exact fetchEntry_error h
  · cases h

/-- What the tables map depends on an address only through its page number. -/
theorem maps_of_page_eq {cr3 v w : Word} {entries : List Word} (hpage : v >>> 12 = w >>> 12)
    (h : Maps m cr3 v entries leaf) :
    Maps m cr3 w entries leaf := by
  have h₄ : pml4Index v = pml4Index w := by
    simp only [pml4Index, Word.shiftRight_eq_of_shiftRight_eq (b := 39) (by omega) hpage]
  have h₃ : pdptIndex v = pdptIndex w := by
    simp only [pdptIndex, Word.shiftRight_eq_of_shiftRight_eq (b := 30) (by omega) hpage]
  have h₂ : pdIndex v = pdIndex w := by
    simp only [pdIndex, Word.shiftRight_eq_of_shiftRight_eq (b := 21) (by omega) hpage]
  have h₁ : ptIndex v = ptIndex w := by simp only [ptIndex, hpage]
  cases h with
  | page1G a b huge hr => exact .page1G (h₄ ▸ a) (h₃ ▸ b) huge hr
  | page2M a b huge c huge' hr => exact .page2M (h₄ ▸ a) (h₃ ▸ b) huge (h₂ ▸ c) huge' hr
  | page4K a b huge c huge' d => exact .page4K (h₄ ▸ a) (h₃ ▸ b) huge (h₂ ▸ c) huge' (h₁ ▸ d)

theorem walk_ok_of_page_eq {cr3 v w : Word} (hpage : v >>> 12 = w >>> 12)
    (h : walk m cr3 v isUser isWrite = .ok leaf) :
    walk m cr3 w isUser isWrite = .ok leaf := by
  obtain ⟨entries, hmaps, hgrants⟩ := walk_ok_iff.mp h
  exact walk_ok_iff.mpr ⟨entries, maps_of_page_eq hpage hmaps, hgrants⟩

/-- A walk that succeeds for a more demanding access succeeds for a supervisor read. -/
theorem walk_supervisor_read {cr3 vaddr : Word} (h : walk m cr3 vaddr isUser isWrite = .ok leaf) :
    walk m cr3 vaddr false false = .ok leaf := by
  obtain ⟨entries, hmaps, -⟩ := walk_ok_iff.mp h
  exact walk_ok_iff.mpr ⟨entries, hmaps, ⟨by simp, by simp⟩⟩

end Rax.X86

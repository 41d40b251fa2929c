import Mathlib.Data.Set.Insert
import Rax.Lib.Run
import Rax.X86.Translate

/-!
# The TLB over whole runs

A machine runs any interleaving of accesses at any privilege level, CR3 loads, INVLPGs, mode
changes and changes of guest memory, page tables included. Beside the machine the trace
records two facts that the unit itself does not keep: the pages whose mapping was changed
since the TLB was last dropped, and the slots filled by a user-mode walk. A page with a
changed mapping is not accessed before it is invalidated.

The invariant `Sound` says that every valid slot holds the leaf of a walk over the tables as
they are now. The two results read off it: a supervisor access answered from the TLB gets
the address the walk gives, and a user access gets through only where the tables allow it,
except by the direct map and by slots that a supervisor filled.
-/

namespace Rax.X86

variable {δ : Type}

/-- The memory-management unit with the control registers it is used under. -/
structure Machine (δ : Type) where
  mmu : Mmu δ
  cr0 : Word
  cr3 : Word
  efer : Word

/-- The registers of an access made under a code-segment selector. -/
def Machine.sregs (s : Machine δ) (csSelector : BitVec 16) : SystemRegisters :=
  ⟨s.cr0, s.cr3, s.efer, csSelector⟩

inductive Event
  | access (vaddr : Word) (access : AccessType) (csSelector : BitVec 16)
  | loadCr3 (cr3 : Word)
  | invlpg (vaddr : Word)
  | setMode (cr0 efer : Word)
  | updateMemory (memory : GuestMemory)

/-- One event. Loading CR3 drops the TLB even when the value stays the same. -/
def Machine.step (s : Machine δ) : Event → Machine δ
  | .access vaddr access cs => { s with mmu := (s.mmu.translate vaddr access (s.sregs cs)).2 }
  | .loadCr3 cr3 => { s with mmu := s.mmu.flushTlb, cr3 := cr3 }
  | .invlpg vaddr => { s with mmu := s.mmu.invlpg vaddr }
  | .setMode cr0 efer => { s with cr0 := cr0, efer := efer }
  | .updateMemory memory => { s with mmu := { s.mmu with memory := memory } }

/-- The pages with a walk that the new memory no longer answers in the same way. -/
def changedPages (cr3 : Word) (old new : GuestMemory) : Set Word :=
  {page | ∃ vaddr isUser isWrite leaf, vpn vaddr = page ∧
    walk old cr3 vaddr isUser isWrite = .ok leaf ∧
    walk new cr3 vaddr isUser isWrite ≠ .ok leaf}

/-- The access completes a walk, whose leaf it caches. -/
def Fills (m : Mmu δ) (vaddr : Word) (access : AccessType) (sregs : SystemRegisters) : Prop :=
  Mmu.Paged vaddr sregs ∧ longMode sregs ∧
    (m.syncCr3 sregs.cr3).tlbAnswer vaddr access sregs.cr3 = none ∧
    ∃ leaf, walk m.memory sregs.cr3 vaddr (isUser sregs) (isWrite access) = .ok leaf

/-- A machine with what the trace records about it. -/
structure Traced (δ : Type) where
  machine : Machine δ
  stale : Set Word
  userFilled : Set (Fin 256)

/-- Slots filled by user-mode walks after an access. -/
def userFilledAfter (m : Mmu δ) (vaddr : Word) (access : AccessType)
    (sregs : SystemRegisters) (slots : Set (Fin 256)) : Set (Fin 256) :=
  {i | (i = tlbIndex vaddr ∧ Fills m vaddr access sregs ∧ isUser sregs = true) ∨
    (¬ (i = tlbIndex vaddr ∧ Fills m vaddr access sregs) ∧ i ∈ slots)}

/-- A step of the trace. Any invalidation drops the whole TLB, so it clears every page. -/
inductive Step : Traced δ → Event → Traced δ → Prop
  | access {t : Traced δ} {vaddr : Word} {access : AccessType} {cs : BitVec 16} :
      vpn vaddr ∉ t.stale →
      Step t (.access vaddr access cs)
        ⟨t.machine.step (.access vaddr access cs), t.stale,
          userFilledAfter t.machine.mmu vaddr access (t.machine.sregs cs) t.userFilled⟩
  | loadCr3 {t : Traced δ} {cr3 : Word} :
      Step t (.loadCr3 cr3) ⟨t.machine.step (.loadCr3 cr3), ∅, t.userFilled⟩
  | invlpg {t : Traced δ} {vaddr : Word} :
      Step t (.invlpg vaddr) ⟨t.machine.step (.invlpg vaddr), ∅, t.userFilled⟩
  | setMode {t : Traced δ} {cr0 efer : Word} :
      Step t (.setMode cr0 efer) ⟨t.machine.step (.setMode cr0 efer), t.stale, t.userFilled⟩
  | updateMemory {t : Traced δ} {memory : GuestMemory} :
      Step t (.updateMemory memory)
        ⟨t.machine.step (.updateMemory memory),
          t.stale ∪ changedPages t.machine.cr3 t.machine.mmu.memory memory, t.userFilled⟩

/-- A fresh unit under any control registers. -/
def Initial (t : Traced δ) : Prop :=
  (∃ memory devices, t.machine.mmu = Mmu.new memory devices) ∧ t.stale = ∅

/-- The states of runs in which changed pages are invalidated before they are accessed. -/
abbrev Reached (t : Traced δ) : Prop := Reachable Initial Step t

/-! ## The invariant -/

/-- An entry is the leaf of a walk for `vaddr`, as far as the page is not stale. -/
structure Cached (memory : GuestMemory) (cr3 : Word) (stale : Set Word) (byUser : Prop)
    (entry : TlbEntry) (vaddr : Word) (leaf : Leaf) : Prop where
  tag : entry.tag = tlbTag vaddr cr3
  base : entry.physBase = leaf.base
  shift : entry.pageShift = leaf.size.shift
  supervisor : vpn vaddr ∉ stale → walk memory cr3 vaddr false false = .ok leaf
  user : vpn vaddr ∉ stale → byUser → walk memory cr3 vaddr true false = .ok leaf

/-- Every valid slot was filled under `cr3` and agrees with the tables. -/
def SlotsSound (m : Mmu δ) (cr3 : Word) (stale : Set Word) (userFilled : Set (Fin 256)) :
    Prop :=
  ∀ i, (m.tlb i).valid = true → m.cachedCr3 = cr3 ∧
    ∃ vaddr leaf, Cached m.memory cr3 stale (i ∈ userFilled) (m.tlb i) vaddr leaf

def Sound (t : Traced δ) : Prop :=
  SlotsSound t.machine.mmu t.machine.cr3 t.stale t.userFilled

theorem slotsSound_flushTlb (m : Mmu δ) (cr3 : Word) (stale : Set Word)
    (userFilled : Set (Fin 256)) : SlotsSound m.flushTlb cr3 stale userFilled := by
  intro i hvalid
  simp at hvalid

theorem slotsSound_syncCr3 {m : Mmu δ} {cr3 : Word} {stale : Set Word}
    {userFilled : Set (Fin 256)} (h : SlotsSound m cr3 stale userFilled) :
    SlotsSound (m.syncCr3 cr3) cr3 stale userFilled := by
  unfold Mmu.syncCr3
  split_ifs
  · intro i hvalid
    simp at hvalid
  · exact h

variable {access : AccessType}

theorem userFilledAfter_of_not_fills {m : Mmu δ} {vaddr : Word} {sregs : SystemRegisters}
    {slots : Set (Fin 256)} (h : ¬ Fills m vaddr access sregs) :
    userFilledAfter m vaddr access sregs slots = slots := by
  ext i
  simp [userFilledAfter, h]

/-- Caching a completed walk keeps the slots sound, with the slot owned by the walk's
privilege level. -/
theorem slotsSound_fillTlb {m : Mmu δ} {cr3 vaddr : Word} {user write : Bool} {leaf : Leaf}
    {stale : Set Word} {old new : Set (Fin 256)} (h : SlotsSound m cr3 stale old)
    (hcr3 : m.cachedCr3 = cr3) (hwalk : walk m.memory cr3 vaddr user write = .ok leaf)
    (hslot : tlbIndex vaddr ∈ new → user = true)
    (hother : ∀ i, i ≠ tlbIndex vaddr → i ∈ new → i ∈ old) :
    SlotsSound (m.fillTlb (tlbIndex vaddr) (tlbTag vaddr cr3) leaf) cr3 stale new := by
  intro i hvalid
  refine ⟨hcr3, ?_⟩
  by_cases hi : i = tlbIndex vaddr
  · subst hi
    refine ⟨vaddr, leaf, ?_⟩
    simp only [Mmu.fillTlb, Function.update_self]
    refine ⟨rfl, rfl, rfl, fun _ => walk_supervisor_read hwalk, fun _ hnew => ?_⟩
    obtain ⟨entries, hmaps, hgrants⟩ := walk_ok_iff.mp hwalk
    exact walk_ok_iff.mpr ⟨entries, hmaps, fun _ => hgrants.user (hslot hnew), by simp⟩
  · simp only [Mmu.fillTlb, Function.update_of_ne hi] at hvalid ⊢
    obtain ⟨-, v, l, hc⟩ := h i hvalid
    exact ⟨v, l, hc.tag, hc.base, hc.shift, hc.supervisor,
      fun hs hnew => hc.user hs (hother i hi hnew)⟩

variable {t : Traced δ}

theorem sound_access {vaddr : Word} {cs : BitVec 16} (h : Sound t) :
    SlotsSound (t.machine.mmu.translate vaddr access (t.machine.sregs cs)).2 t.machine.cr3
      t.stale
      (userFilledAfter t.machine.mmu vaddr access (t.machine.sregs cs) t.userFilled) := by
  have hsync := slotsSound_syncCr3 h
  -- the outcome of the translation decides whether the slot changes hands
  have key : ∀ r m', t.machine.mmu.Translates vaddr access (t.machine.sregs cs) r m' →
      SlotsSound m' t.machine.cr3 t.stale
        (userFilledAfter t.machine.mmu vaddr access (t.machine.sregs cs) t.userFilled) := by
    intro r m' hspec
    cases hspec with
    | unpaged hp =>
        rw [userFilledAfter_of_not_fills fun hf => hp hf.1.1]
        exact h
    | nonCanonical hp hl hc =>
        rw [userFilledAfter_of_not_fills fun hf => hc (hf.1.2 hl)]
        exact h
    | hit hp ha =>
        rw [userFilledAfter_of_not_fills fun ⟨_, _, hn, _⟩ => by simp [ha] at hn]
        exact hsync
    | notLongMode hp ha hl =>
        rw [userFilledAfter_of_not_fills fun hf => hl hf.2.1]
        exact hsync
    | walked hp ha hl hw =>
        have hfills : Fills t.machine.mmu vaddr access (t.machine.sregs cs) :=
          ⟨hp, hl, ha, _, hw⟩
        refine slotsSound_fillTlb hsync (Mmu.syncCr3_cachedCr3 ..)
          (by rw [Mmu.syncCr3_memory]; exact hw) ?_ ?_
        · rintro (⟨-, -, hu⟩ | ⟨hn, -⟩)
          · exact hu
          · exact absurd ⟨rfl, hfills⟩ hn
        · rintro i hi (⟨hi', -⟩ | ⟨-, hold⟩)
          · exact absurd hi' hi
          · exact hold
    | faulted hp ha hl hw =>
        rw [userFilledAfter_of_not_fills fun ⟨_, _, _, hn⟩ => by simp [hw] at hn]
        exact hsync
    | unreadable hp ha hl hw =>
        rw [userFilledAfter_of_not_fills fun ⟨_, _, _, hn⟩ => by simp [hw] at hn]
        exact hsync
  exact key _ _ (Mmu.translate_spec ..)

/-- A change of memory keeps the walks of every page that it does not make stale. -/
theorem sound_updateMemory {memory : GuestMemory} (h : Sound t) :
    SlotsSound { t.machine.mmu with memory := memory } t.machine.cr3
      (t.stale ∪ changedPages t.machine.cr3 t.machine.mmu.memory memory) t.userFilled := by
  have keep : ∀ v user leaf,
      vpn v ∉ t.stale ∪ changedPages t.machine.cr3 t.machine.mmu.memory memory →
      walk t.machine.mmu.memory t.machine.cr3 v user false = .ok leaf →
      walk memory t.machine.cr3 v user false = .ok leaf := by
    intro v user leaf hfresh hwalk
    by_contra hne
    exact hfresh (Or.inr ⟨v, user, false, leaf, rfl, hwalk, hne⟩)
  intro i hvalid
  obtain ⟨hcr3, v, leaf, hc⟩ := h i hvalid
  refine ⟨hcr3, v, leaf, hc.tag, hc.base, hc.shift, fun hs => ?_, fun hs hu => ?_⟩
  · exact keep v false leaf hs (hc.supervisor fun hst => hs (Or.inl hst))
  · exact keep v true leaf hs (hc.user (fun hst => hs (Or.inl hst)) hu)

theorem step_sound {t t' : Traced δ} {e : Event} (h : Sound t) (hstep : Step t e t') :
    Sound t' := by
  cases hstep with
  | access _ => exact sound_access h
  | loadCr3 => exact slotsSound_flushTlb _ _ _ _
  | invlpg => exact slotsSound_flushTlb _ _ _ _
  | setMode => exact h
  | updateMemory => exact sound_updateMemory h

theorem initial_sound (h : Initial t) : Sound t := by
  obtain ⟨⟨memory, devices, hmmu⟩, -⟩ := h
  intro i hvalid
  rw [hmmu] at hvalid
  cases hvalid

/-- The TLB is sound in every state of every run. -/
theorem reached_sound (h : Reached t) : Sound t := by
  refine Reachable.invariant ?_ ?_ h
  · intro s hs
    exact initial_sound hs
  · intro s e s' hs hstep
    exact step_sound hs hstep

/-! ## A machine with identity tables -/

/-- Tables at `0x1000` and `0x2000` that map the first GiB to itself for user mode. -/
def identityMemory : GuestMemory where
  byteAt a :=
    if a < 0x3000 then
      some (if a = 0x1000 then 0x07 else if a = 0x1001 then 0x20
        else if a = 0x2000 then 0x87 else 0)
    else none
  ramLen := 0x3000
  lastAddr := 0x2FFF
  ram_mapped a ha := by
    rw [if_pos ha]
    rfl

/-- Long mode with paging over `identityMemory`. -/
def identityMachine : Traced Unit where
  machine := ⟨Mmu.new identityMemory (), 0x80000001, 0x1000, 0x500⟩
  stale := ∅
  userFilled := ∅

/-- The machine after a read at `0x5678` under a code-segment selector. -/
def identityAfterRead (cs : BitVec 16) : Traced Unit :=
  ⟨identityMachine.machine.step (.access 0x5678 .read cs), ∅,
    userFilledAfter identityMachine.machine.mmu 0x5678 .read (identityMachine.machine.sregs cs)
      ∅⟩

theorem identityMachine_reached : Reached identityMachine :=
  .init ⟨⟨identityMemory, (), rfl⟩, rfl⟩

theorem identityAfterRead_reached (cs : BitVec 16) : Reached (identityAfterRead cs) :=
  .step identityMachine_reached (.access (Set.notMem_empty _))

/-! ## What the TLB answers -/

/-- A TLB answer for a page that is not stale is the address of the walk's leaf. -/
theorem tlbAnswer_cached (h : Sound t) {vaddr paddr : Word} (hfresh : vpn vaddr ∉ t.stale)
    (hanswer : (t.machine.mmu.syncCr3 t.machine.cr3).tlbAnswer vaddr access t.machine.cr3 =
      some paddr) :
    ∃ leaf, paddr = leaf.phys vaddr ∧ isWrite access = false ∧
      walk t.machine.mmu.memory t.machine.cr3 vaddr false false = .ok leaf ∧
      (tlbIndex vaddr ∈ t.userFilled →
        walk t.machine.mmu.memory t.machine.cr3 vaddr true false = .ok leaf) := by
  obtain ⟨hread, hlookup⟩ := Mmu.tlbAnswer_some_iff.mp hanswer
  obtain ⟨hvalid, htag, hpaddr⟩ := Mmu.tlbLookup_some_iff.mp hlookup
  obtain ⟨-, v, leaf, hc⟩ := slotsSound_syncCr3 h (tlbIndex vaddr) hvalid
  have hpage : vpn v = vpn vaddr := vpn_eq_of_tlbTag_eq (hc.tag.symm.trans htag)
  rw [← hpage] at hfresh
  rw [hc.base, hc.shift, PageSize.lowMask_shift] at hpaddr
  rw [← Mmu.syncCr3_memory t.machine.mmu t.machine.cr3]
  exact ⟨leaf, hpaddr, hread, walk_ok_of_page_eq hpage (hc.supervisor hfresh),
    fun hu => walk_ok_of_page_eq hpage (hc.user hfresh hu)⟩

/-- A supervisor access answered from the TLB gets, in every state of every run, the
address that the walk of that access gives at that moment; a write so answered is one that
every entry on the way permits. -/
theorem supervisor_tlb_answer_eq_walk {t : Traced δ} (h : Reached t) (vaddr paddr : Word)
    (access : AccessType) (cs : BitVec 16) (hcpl : cs &&& 0x3 ≠ 3) (hpaged : Mmu.Paged vaddr (t.machine.sregs cs))
    (hfresh : vpn vaddr ∉ t.stale)
    (hanswer : (t.machine.mmu.syncCr3 t.machine.cr3).tlbAnswer vaddr access t.machine.cr3 =
      some paddr) :
    (t.machine.mmu.translate vaddr access (t.machine.sregs cs)).1 = .ok paddr ∧
    ∃ entries leaf, Maps t.machine.mmu.memory t.machine.cr3 vaddr entries leaf ∧
      walk t.machine.mmu.memory t.machine.cr3 vaddr (isUser (t.machine.sregs cs))
        (isWrite access) = .ok leaf ∧
      paddr = leaf.phys vaddr ∧
      (access = .write → ∀ e ∈ entries, WriteAllowed e) := by
  refine ⟨Mmu.translate_of_tlbAnswer hpaged hanswer, ?_⟩
  obtain ⟨leaf, hpaddr, hread, hwalk, -⟩ := tlbAnswer_cached (reached_sound h) hfresh hanswer
  obtain ⟨entries, hmaps, -⟩ := walk_ok_iff.mp hwalk
  have huser : isUser (t.machine.sregs cs) = false := by
    simpa [isUser, Machine.sregs] using hcpl
  refine ⟨entries, leaf, hmaps, ?_, hpaddr, ?_⟩
  · rw [huser, hread]
    exact hwalk
  · rintro rfl
    cases hread

theorem supervisor_tlb_answer_eq_walk_identity :
    ((identityAfterRead 0).machine.mmu.translate 0x5678 .read
      ((identityAfterRead 0).machine.sregs 0)).1 = .ok 0x5678 ∧
    ∃ entries leaf, Maps identityMemory 0x1000 0x5678 entries leaf ∧
      (0x5678 : Word) = leaf.phys 0x5678 := by
  obtain ⟨hok, entries, leaf, hmaps, -, hphys, -⟩ :=
    supervisor_tlb_answer_eq_walk (identityAfterRead_reached 0) 0x5678 0x5678 .read 0
      (by decide) (by decide) (Set.notMem_empty _) (by decide)
  exact ⟨hok, entries, leaf, hmaps, hphys⟩

/-! ## User-mode accesses -/

/-- The tables grant a user-mode access at the address, which they send to `paddr`. -/
def UserMapped (memory : GuestMemory) (cr3 vaddr : Word) (access : AccessType)
    (paddr : Word) : Prop :=
  ∃ entries leaf, Maps memory cr3 vaddr entries leaf ∧ paddr = leaf.phys vaddr ∧
    (∀ e ∈ entries, UserAllowed e) ∧ (access = .write → ∀ e ∈ entries, WriteAllowed e)

/-- The address lies in the direct map of the guest's memory. -/
def DirectMapped (memory : GuestMemory) (vaddr paddr : Word) : Prop :=
  directMapBase ≤ vaddr ∧ vaddr ≤ directMapEnd ∧ paddr = vaddr - directMapBase ∧
    paddr < memory.memorySize

/-- The access is answered by a slot that no user-mode walk filled. -/
def SupervisorAnswered (t : Traced δ) (vaddr : Word) (access : AccessType) : Prop :=
  tlbIndex vaddr ∉ t.userFilled ∧
    ((t.machine.mmu.syncCr3 t.machine.cr3).tlbAnswer vaddr access t.machine.cr3).isSome

/-- The errors a user-mode access can end in: a page fault at its address, a general
protection fault for a non-canonical address, or a failure of the emulator itself. -/
inductive UserFault (sregs : SystemRegisters) (vaddr : Word) : Error → Prop
  | pageFault (code : Word) : UserFault sregs vaddr (.pageFault vaddr code)
  | nonCanonical : longMode sregs → ¬ isCanonical vaddr →
      UserFault sregs vaddr (.generalProtection 0)
  | notLongMode : ¬ longMode sregs → UserFault sregs vaddr (.emulator .longModeOnly)
  | unreadable (paddr : Word) : UserFault sregs vaddr (.emulator (.readPte paddr))

theorem userMapped_of_walk {memory : GuestMemory} {cr3 vaddr : Word} {leaf : Leaf}
    (h : walk memory cr3 vaddr true (isWrite access) = .ok leaf) :
    UserMapped memory cr3 vaddr access (leaf.phys vaddr) := by
  obtain ⟨entries, hmaps, hgrants⟩ := walk_ok_iff.mp h
  refine ⟨entries, leaf, hmaps, rfl, hgrants.user rfl, ?_⟩
  rintro rfl
  exact hgrants.write rfl

theorem tryDirectMapFallback_spec (m : Mmu δ) (vaddr errorCode : Word) :
    (m.tryDirectMapFallback vaddr errorCode = .ok (vaddr - directMapBase) ∧
      DirectMapped m.memory vaddr (vaddr - directMapBase)) ∨
    m.tryDirectMapFallback vaddr errorCode = .error (.pageFault vaddr errorCode) := by
  unfold Mmu.tryDirectMapFallback
  split_ifs with h
  · exact Or.inl ⟨rfl, h.1, h.2.1, rfl, h.2.2⟩
  · exact Or.inr rfl

/-- In every state of every run a user-mode access that no supervisor-filled slot answers
succeeds only where the tables grant it or in the direct map, and fails with a fault. -/
theorem user_translate_granted {t : Traced δ} (h : Reached t) (vaddr : Word)
    (access : AccessType) (cs : BitVec 16) (hcpl : cs &&& 0x3 = 3) (hpaging : pagingEnabled (t.machine.sregs cs))
    (hfresh : vpn vaddr ∉ t.stale) (howner : ¬ SupervisorAnswered t vaddr access) :
    match (t.machine.mmu.translate vaddr access (t.machine.sregs cs)).1 with
    | .ok paddr =>
        UserMapped t.machine.mmu.memory t.machine.cr3 vaddr access paddr ∨
        DirectMapped t.machine.mmu.memory vaddr paddr
    | .error err => UserFault (t.machine.sregs cs) vaddr err := by
  have huser : isUser (t.machine.sregs cs) = true := by
    simpa [isUser, Machine.sregs] using hcpl
  generalize hm : (t.machine.mmu.translate vaddr access (t.machine.sregs cs)).2 = m'
  generalize hr : (t.machine.mmu.translate vaddr access (t.machine.sregs cs)).1 = r
  have hspec := t.machine.mmu.translate_spec vaddr access (t.machine.sregs cs)
  rw [hm, hr] at hspec
  cases hspec with
  | unpaged hp => exact absurd hpaging hp
  | nonCanonical _ hl hc => exact .nonCanonical hl hc
  | hit hp ha =>
      obtain ⟨leaf, rfl, hread, -, hwalk⟩ := tlbAnswer_cached (reached_sound h) hfresh ha
      have hslot : tlbIndex vaddr ∈ t.userFilled := by
        by_contra hn
        exact howner ⟨hn, Option.isSome_iff_exists.mpr ⟨_, ha⟩⟩
      exact Or.inl (userMapped_of_walk (by rw [hread]; exact hwalk hslot))
  | notLongMode _ _ hl => exact .notLongMode hl
  | walked _ _ _ hw =>
      rw [huser] at hw
      exact Or.inl (userMapped_of_walk hw)
  | faulted _ _ _ hw =>
      rcases tryDirectMapFallback_spec t.machine.mmu vaddr _ with ⟨heq, hdm⟩ | heq
      · rw [heq]
        exact Or.inr hdm
      · rw [heq]
        exact .pageFault _
  | unreadable _ _ _ hw => exact .unreadable _

theorem user_translate_granted_identity :
    UserMapped identityMemory 0x1000 0x5678 .read 0x5678 ∨
      DirectMapped identityMemory 0x5678 0x5678 := by
  have hfills : tlbIndex 0x5678 ∈ (identityAfterRead 3).userFilled :=
    Or.inl ⟨rfl, ⟨by decide, by decide, by decide, ⟨0, .page1G⟩, by decide⟩, by decide⟩
  exact user_translate_granted (identityAfterRead_reached 3) 0x5678 .read 3 (by decide)
    (by decide) (Set.notMem_empty _) fun hs => hs.1 hfills

/-- The tables of `identityMemory` with another leaf. -/
def withLeaf (leaf : Byte) : GuestMemory where
  byteAt a := if a = 0x2000 then some leaf else identityMemory.byteAt a
  ramLen := 0x3000
  lastAddr := 0x2FFF
  ram_mapped a ha := by
    split
    · rfl
    · exact identityMemory.ram_mapped a ha

/-- A fresh machine with paging on. -/
def freshMachine (memory : GuestMemory) (cr3 efer : Word) : Traced Unit :=
  ⟨⟨Mmu.new memory (), 0x80000001, cr3, efer⟩, ∅, ∅⟩

/-- The leaf is cleared after a user-mode read at `0x5678`, and nothing is invalidated. -/
def afterClearing : Traced Unit :=
  ⟨(identityAfterRead 3).machine.step (.updateMemory (withLeaf 0)),
    ∅ ∪ changedPages 0x1000 identityMemory (withLeaf 0), (identityAfterRead 3).userFilled⟩

/-- A supervisor has read at `0x5678`, on a page that is not for user mode. -/
def afterSupervisor : Traced Unit :=
  let t := freshMachine (withLeaf 0x83) 0x1000 0x500
  ⟨t.machine.step (.access 0x5678 .read 0), ∅,
    userFilledAfter t.machine.mmu 0x5678 .read (t.machine.sregs 0) ∅⟩

def Traced.userRead (t : Traced δ) (vaddr : Word) : Except Error Word :=
  (t.machine.mmu.translate vaddr .read (t.machine.sregs 3)).1

def Traced.userWalk (t : Traced δ) (vaddr : Word) : Except Error Leaf :=
  walk t.machine.mmu.memory t.machine.cr3 vaddr true false

/-- User-mode reads with paging on that end otherwise than where the tables grant them or in a page
fault: in a general protection fault at a non-canonical address, in success on a page whose leaf
was cleared after it was read, on a page that a supervisor has read and in the direct map, and in
errors of the emulator outside long mode and with tables outside memory. -/
theorem user_reads_end_otherwise :
    (∀ memory cr3 efer, Reached (freshMachine memory cr3 efer) ∧
      pagingEnabled ((freshMachine memory cr3 efer).machine.sregs 3)) ∧
    (freshMachine identityMemory 0x1000 0x500).userRead 0x800000000000 =
      .error (.generalProtection 0) ∧
    (Reached afterClearing ∧ afterClearing.userRead 0x5678 = .ok 0x5678 ∧
      afterClearing.userWalk 0x5678 = .error (.pageFault 0x5678 4)) ∧
    (Reached afterSupervisor ∧ afterSupervisor.userRead 0x5678 = .ok 0x5678 ∧
      afterSupervisor.userWalk 0x5678 = .error (.pageFault 0x5678 5)) ∧
    ((freshMachine identityMemory 0x1000 0x500).userRead 0xFFFF888000000000 = .ok 0 ∧
      (freshMachine identityMemory 0x1000 0x500).userWalk 0xFFFF888000000000 =
        .error (.pageFault 0xFFFF888000000000 4)) ∧
    (freshMachine identityMemory 0x1000 0).userRead 0x5678 = .error (.emulator .longModeOnly) ∧
    (freshMachine identityMemory 0x8000 0x500).userRead 0x5678 =
      .error (.emulator (.readPte 0x8000)) := by
  have hfresh (memory : GuestMemory) (cr3 efer : Word) : Reached (freshMachine memory cr3 efer) :=
    .init ⟨⟨memory, (), rfl⟩, rfl⟩
  have hstale : Reached afterClearing := .step (identityAfterRead_reached 3) .updateMemory
  have hsupervisor : Reached afterSupervisor :=
    .step (hfresh _ _ _) (.access (Set.notMem_empty _))
  have hpaging : (0x80000001 : Word) &&& cr0Pg ≠ 0 ∧ (0x80000001 : Word) &&& cr0Pe ≠ 0 := by decide
  exact ⟨fun _ _ _ => ⟨hfresh _ _ _, hpaging⟩, by decide, ⟨hstale, by decide, by decide⟩,
    ⟨hsupervisor, by decide, by decide⟩, ⟨by decide, by decide⟩, by decide, by decide⟩

end Rax.X86

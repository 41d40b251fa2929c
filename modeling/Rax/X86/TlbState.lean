import Rax.X86.Route

/-!
# Translations and the TLB they leave

A translation is split into its result and the TLB it leaves. A write is never answered by the TLB,
so its result is the route of the address.
-/

namespace Rax.X86

variable {δ : Type}

/-- The part of the unit that translations change. -/
structure TlbState where
  slots : Fin 256 → TlbEntry
  cr3 : Word

namespace TlbState

def sync (t : TlbState) (cr3 : Word) : TlbState :=
  if cr3 ≠ t.cr3 then ⟨fun i => { t.slots i with valid := false }, cr3⟩ else t

/-- The physical address a valid entry with the right tag gives. -/
def lookup (t : TlbState) (vaddr cr3 : Word) : Option Word :=
  let entry := t.slots (tlbIndex vaddr)
  if entry.valid = true ∧ entry.tag = tlbTag vaddr cr3 then
    some (entry.physBase ||| (vaddr &&& Word.lowMask entry.pageShift))
  else none

def fill (t : TlbState) (vaddr cr3 : Word) (leaf : Leaf) : TlbState :=
  { t with
    slots := Function.update t.slots (tlbIndex vaddr)
      { tag := tlbTag vaddr cr3, physBase := leaf.base, pageShift := leaf.size.shift,
        valid := true } }

/-- The answer of the TLB to an access that it may answer. -/
def hit (t : TlbState) (vaddr : Word) (access : AccessType) (sregs : SystemRegisters) :
    Option Word :=
  if Mmu.Paged vaddr sregs ∧ isWrite access = false then
    (t.sync sregs.cr3).lookup vaddr sregs.cr3
  else none

def result (t : TlbState) (memory : GuestMemory) (vaddr : Word) (access : AccessType)
    (sregs : SystemRegisters) : Except Error Word :=
  match t.hit vaddr access sregs with
  | some paddr => .ok paddr
  | none => route memory vaddr access sregs

/-- The leaf that a walk in long mode completes. -/
def leafOf (memory : GuestMemory) (vaddr : Word) (access : AccessType)
    (sregs : SystemRegisters) : Option Leaf :=
  if longMode sregs then
    match walk memory sregs.cr3 vaddr (isUser sregs) (isWrite access) with
    | .ok leaf => some leaf
    | .error _ => none
  else none

/-- Cache a leaf if there is one. -/
def refill (t : TlbState) (vaddr cr3 : Word) : Option Leaf → TlbState
  | some leaf => t.fill vaddr cr3 leaf
  | none => t

def after (t : TlbState) (memory : GuestMemory) (vaddr : Word) (access : AccessType)
    (sregs : SystemRegisters) : TlbState :=
  if Mmu.Paged vaddr sregs then
    if (t.hit vaddr access sregs).isSome then t.sync sregs.cr3
    else (t.sync sregs.cr3).refill vaddr sregs.cr3 (leafOf memory vaddr access sregs)
  else t

end TlbState

namespace Mmu

def tlbState (m : Mmu δ) : TlbState := ⟨m.tlb, m.cachedCr3⟩

def setTlb (m : Mmu δ) (t : TlbState) : Mmu δ := { m with tlb := t.slots, cachedCr3 := t.cr3 }

@[simp] theorem setTlb_tlbState (m : Mmu δ) : m.setTlb m.tlbState = m := rfl

@[simp] theorem tlbState_setTlb (m : Mmu δ) (t : TlbState) : (m.setTlb t).tlbState = t := rfl

@[simp] theorem setTlb_setTlb (m : Mmu δ) (t u : TlbState) :
    (m.setTlb t).setTlb u = m.setTlb u := rfl

theorem syncCr3_eq (m : Mmu δ) (cr3 : Word) : m.syncCr3 cr3 = m.setTlb (m.tlbState.sync cr3) := by
  unfold syncCr3 TlbState.sync
  by_cases h : cr3 ≠ m.cachedCr3
  · rw [if_pos h, if_pos (show cr3 ≠ m.tlbState.cr3 from h)]
    rfl
  · rw [if_neg h, if_neg (show ¬ cr3 ≠ m.tlbState.cr3 from h)]
    rfl

theorem tlbAnswer_eq_hit {m : Mmu δ} {vaddr : Word} {access : AccessType}
    {sregs : SystemRegisters} (h : Paged vaddr sregs) :
    (m.syncCr3 sregs.cr3).tlbAnswer vaddr access sregs.cr3 =
      m.tlbState.hit vaddr access sregs := by
  rw [syncCr3_eq]
  unfold tlbAnswer TlbState.hit
  cases hw : isWrite access with
  | true => simp
  | false =>
    simp only [Bool.false_eq_true, if_false, h, and_self, if_true]
    rfl

/-- A translation gives the result of the TLB state and leaves the state after it. -/
theorem translate_eq (m : Mmu δ) (vaddr : Word) (access : AccessType) (sregs : SystemRegisters) :
    m.translate vaddr access sregs =
      (m.tlbState.result m.memory vaddr access sregs,
        m.setTlb (m.tlbState.after m.memory vaddr access sregs)) := by
  have key : ∀ r m', Translates m vaddr access sregs r m' →
      r = m.tlbState.result m.memory vaddr access sregs ∧
        m' = m.setTlb (m.tlbState.after m.memory vaddr access sregs) := by
    intro r m' hspec
    unfold TlbState.result TlbState.after
    cases hspec with
    | unpaged hoff =>
      have hp : ¬ Paged vaddr sregs := fun h => hoff h.1
      simp [TlbState.hit, hp, route, hoff]
    | nonCanonical hon hlong hcanon =>
      have hp : ¬ Paged vaddr sregs := fun h => hcanon (h.2 hlong)
      simp [TlbState.hit, hp, route, hon, hlong, hcanon]
    | hit hp hanswer =>
      rw [tlbAnswer_eq_hit hp] at hanswer
      rw [syncCr3_eq]
      simp [hanswer, hp]
    | notLongMode hp hanswer hlong =>
      rw [tlbAnswer_eq_hit hp] at hanswer
      rw [syncCr3_eq]
      simp [hanswer, hp, route, hp.1, hlong, TlbState.leafOf, TlbState.refill]
    | walked hp hanswer hlong hwalk =>
      rw [tlbAnswer_eq_hit hp] at hanswer
      rw [syncCr3_eq]
      simp [hanswer, hp, route, hp.1, hlong, hp.2 hlong, TlbState.leafOf, TlbState.refill, hwalk,
        resolve]
      rfl
    | faulted hp hanswer hlong hwalk =>
      rw [tlbAnswer_eq_hit hp] at hanswer
      rw [syncCr3_eq]
      simp [hanswer, hp, route, hp.1, hlong, hp.2 hlong, TlbState.leafOf, TlbState.refill, hwalk,
        resolve]
      rfl
    | unreadable hp hanswer hlong hwalk =>
      rw [tlbAnswer_eq_hit hp] at hanswer
      rw [syncCr3_eq]
      simp [hanswer, hp, route, hp.1, hlong, hp.2 hlong, TlbState.leafOf, TlbState.refill, hwalk,
        resolve]
  obtain ⟨hr, hm⟩ := key _ _ (translate_spec m vaddr access sregs)
  exact Prod.ext hr hm

end Mmu

namespace TlbState

variable {t : TlbState} {mem : GuestMemory} {sregs : SystemRegisters} {v w : Word}
  {access : AccessType}

end TlbState

end Rax.X86

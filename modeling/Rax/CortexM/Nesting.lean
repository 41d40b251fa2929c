import Rax.CortexM.Exception

/-!
# Nested exceptions

Runs of the processor in which entries and returns are properly nested and handlers are balanced
on the stack. A return undoes its entry exactly if the entry was made with an aligned stack
pointer, without the floating-point unit, from a thread state whose exception number is zero, and
while the interrupt controller had no exception running. Nesting breaks the last of these.
-/

namespace Rax.CortexM

open Command

variable {μ ε : Type}

/-! ## Words of a frame -/

/-- The addresses of `n` consecutive words. -/
def wordAddrs : BitVec 32 → Nat → List (BitVec 32)
  | _, 0 => []
  | a, n + 1 => a :: wordAddrs (a + 4) n

theorem mem_wordAddrs {a b : BitVec 32} {n : Nat} :
    b ∈ wordAddrs a n ↔ ∃ i < n, b = a + BitVec.ofNat 32 (4 * i) := by
  induction n generalizing a with
  | zero => simp [wordAddrs]
  | succ n ih =>
    have hstep : ∀ i, a + 4 + BitVec.ofNat 32 (4 * i) = a + BitVec.ofNat 32 (4 * (i + 1)) := by
      intro i
      rw [BitVec.add_assoc, Nat.mul_succ, Nat.add_comm (4 * i), BitVec.ofNat_add]
      rfl
    rw [wordAddrs, List.mem_cons, ih]
    constructor
    · rintro (rfl | ⟨i, hi, rfl⟩)
      · exact ⟨0, Nat.succ_pos n, (BitVec.add_zero b).symm⟩
      · exact ⟨i + 1, Nat.succ_lt_succ hi, hstep i⟩
    · rintro ⟨i, hi, rfl⟩
      cases i with
      | zero => exact Or.inl (BitVec.add_zero a)
      | succ i => exact Or.inr ⟨i, Nat.lt_of_succ_lt_succ hi, (hstep i).symm⟩

theorem apart_of_ne {a b : BitVec 32} (ha : a.toNat % 4 = 0) (hb : b.toNat % 4 = 0)
    (hne : a ≠ b) : a.toNat + 4 ≤ b.toNat ∨ b.toNat + 4 ≤ a.toNat := by
  have hnat : a.toNat ≠ b.toNat := fun h => hne (BitVec.eq_of_toNat_eq h)
  omega

theorem aligned_add_four {a : BitVec 32} (h : a.toNat % 4 = 0) : (a + 4).toNat % 4 = 0 := by
  rw [BitVec.toNat_add]
  have h4 : (4 : BitVec 32).toNat = 4 := rfl
  omega

theorem aligned_wordAddrs {a b : BitVec 32} {n : Nat} (ha : a.toNat % 4 = 0)
    (hb : b ∈ wordAddrs a n) : b.toNat % 4 = 0 := by
  induction n generalizing a with
  | zero => cases hb
  | succ n ih =>
    rcases List.mem_cons.mp hb with rfl | hb
    · exact ha
    · exact ih (aligned_add_four ha) hb

theorem notMem_wordAddrs_next (a : BitVec 32) {n : Nat} (hn : n < 2 ^ 20) :
    a ∉ wordAddrs (a + 4) n := by
  rw [mem_wordAddrs]
  rintro ⟨i, hi, h⟩
  have h4 : (4 : BitVec 32).toNat = 4 := rfl
  have hnat := congrArg BitVec.toNat h
  rw [BitVec.toNat_add, BitVec.toNat_add, BitVec.toNat_ofNat, h4] at hnat
  have hlt := a.isLt
  omega

/-! ## Memory -/

/-- Memory that keeps what is stored: a word that can be read back has the value stored, and a
store does not reach other words. -/
class LawfulMemory (μ : Type) (ε : outParam Type) [ArmMemory μ ε] : Prop where
  read_stored : ∀ {m m' : μ} {a v w : BitVec 32}, ArmMemory.writeU32 m a v = (.ok (), m') →
    ArmMemory.readU32 m' a = .ok w → w = v
  read_other : ∀ {m m' : μ} {a b v : BitVec 32}, ArmMemory.writeU32 m a v = (.ok (), m') →
    (a.toNat + 4 ≤ b.toNat ∨ b.toNat + 4 ≤ a.toNat) →
    ArmMemory.readU32 m' b = ArmMemory.readU32 m b

section Memory

variable [ArmMemory μ ε]

/-- The words from an address on are the given ones, as far as they can be read. -/
def Holds (m : μ) : BitVec 32 → List (BitVec 32) → Prop
  | _, [] => True
  | a, w :: ws => (∀ v, ArmMemory.readU32 m a = .ok v → v = w) ∧ Holds m (a + 4) ws

theorem Holds.congr {m m' : μ} {a : BitVec 32} {ws : List (BitVec 32)} (h : Holds m a ws)
    (hsame : ∀ b ∈ wordAddrs a ws.length, ArmMemory.readU32 m' b = ArmMemory.readU32 m b) :
    Holds m' a ws := by
  induction ws generalizing a with
  | nil => trivial
  | cons w ws ih =>
    obtain ⟨hhead, htail⟩ := h
    refine ⟨fun v hv => hhead v ?_, ih htail fun b hb => hsame b (List.mem_cons_of_mem _ hb)⟩
    rw [← hsame a List.mem_cons_self]
    exact hv

theorem memWriteU32_ok {a v : BitVec 32} {c c' : Cpu μ} (h : memWriteU32 a v c = .ok () c') :
    ∃ m, ArmMemory.writeU32 c.memory a v = (.ok (), m) ∧ c' = { c with memory := m } := by
  unfold memWriteU32 at h
  split at h
  · rename_i m hm
    injection h with _ hc
    exact ⟨m, hm, hc.symm⟩
  · cases h

theorem storeWords_ok [LawfulMemory μ ε] {a : BitVec 32} {ws : List (BitVec 32)} {c c' : Cpu μ}
    (ha : a.toNat % 4 = 0) (hlen : ws.length < 2 ^ 20) (h : storeWords a ws c = .ok () c') :
    (∃ m, c' = { c with memory := m }) ∧ Holds c'.memory a ws ∧
      ∀ b, b.toNat % 4 = 0 → b ∉ wordAddrs a ws.length →
        ArmMemory.readU32 c'.memory b = ArmMemory.readU32 c.memory b := by
  induction ws generalizing a c with
  | nil =>
    injection h with _ hc
    exact ⟨⟨c.memory, hc.symm⟩, trivial, fun b _ _ => by rw [hc]⟩
  | cons w ws ih =>
    obtain ⟨_, c₁, hwrite, hrest⟩ := bind_ok_iff.mp h
    obtain ⟨m, hm, rfl⟩ := memWriteU32_ok hwrite
    have hlen' : ws.length < 2 ^ 20 := Nat.lt_of_succ_lt hlen
    obtain ⟨⟨m', rfl⟩, hholds, hother⟩ := ih (aligned_add_four ha) hlen' hrest
    refine ⟨⟨m', rfl⟩, ⟨fun v hv => ?_, hholds⟩, fun b hb hnot => ?_⟩
    · rw [hother a ha (notMem_wordAddrs_next a hlen')] at hv
      exact LawfulMemory.read_stored hm hv
    · rw [List.length_cons, wordAddrs, List.mem_cons, not_or] at hnot
      rw [hother b hb hnot.2]
      exact LawfulMemory.read_other hm (apart_of_ne ha hb (Ne.symm hnot.1))

end Memory

/-! ## Entries -/

theorem toNat_and_not_seven (x : BitVec 32) : (x &&& ~~~0x7#32).toNat = 8 * (x.toNat / 8) := by
  have hshift : x &&& ~~~0x7#32 = (x >>> 3) <<< 3 := by
    refine BitVec.eq_of_getLsbD_eq fun i hi => ?_
    rw [BitVec.getLsbD_and, BitVec.getLsbD_shiftLeft, BitVec.getLsbD_ushiftRight]
    have hmask : (~~~0x7#32).getLsbD i = (decide (i < 32) && !decide (i < 3)) := by
      have hall : ∀ i < 32, (~~~0x7#32).getLsbD i =
        (decide (i < 32) && !decide (i < 3)) := by decide
      exact hall i hi
    rw [hmask]
    by_cases h3 : i < 3
    · simp [h3]
    · rw [Nat.add_sub_cancel' (Nat.not_lt.mp h3)]
      simp [hi, h3]
  have hlt := x.isLt
  rw [hshift, BitVec.toNat_shiftLeft, BitVec.toNat_ushiftRight, Nat.shiftRight_eq_div_pow,
    Nat.shiftLeft_eq]
  omega

namespace Cpu

variable (c : Cpu μ)

theorem setCurrentSp_eq (v : BitVec 32) : c.setCurrentSp v =
    { c with
      spMain := if c.usesPsp then c.spMain else v
      spProcess := if c.usesPsp then v else c.spProcess } := by
  unfold setCurrentSp
  cases c.usesPsp <;> rfl

theorem frameBase_aligned : c.frameBase.toNat % 4 = 0 := by
  rw [frameBase, toNat_and_not_seven]
  omega

/-- `c` with the registers of a frame that was stacked in state `saved`. -/
def unstack (saved : Cpu μ) : Cpu μ :=
  { (((((c.setReg r0 (saved.regs r0)).setReg r1 (saved.regs r1)).setReg r2
      (saved.regs r2)).setReg r3 (saved.regs r3)).setReg r12 (saved.regs r12)) with
    lr := saved.lr
    pc := saved.pc
    xpsr := saved.xpsr }

/-- The value in LR tells the stack and the mode, and never a floating-point frame. -/
theorem excReturn_usesPsp : ExcReturn.usesPsp c.excReturn = c.usesPsp := by
  cases hmode : c.threadMode with
  | false =>
    have hpsp : c.usesPsp = false := by rw [usesPsp, hmode, Bool.false_and]
    rw [excReturn, hmode, hpsp, if_neg Bool.false_ne_true]
    rfl
  | true =>
    rw [excReturn, hmode, if_pos rfl]
    cases c.usesPsp <;> rfl

theorem excReturn_isThreadMode : ExcReturn.isThreadMode c.excReturn = c.threadMode := by
  unfold excReturn
  cases c.threadMode with
  | false =>
    rw [if_neg Bool.false_ne_true]
    rfl
  | true =>
    rw [if_pos rfl]
    cases c.usesPsp <;> rfl

theorem excReturn_fpuActive : ExcReturn.fpuActive c.excReturn = false := by
  unfold excReturn
  cases c.threadMode with
  | false =>
    rw [if_neg Bool.false_ne_true]
    rfl
  | true =>
    rw [if_pos rfl]
    cases c.usesPsp <;> rfl

end Cpu

/-- An exception that has been entered and not left. `main` and `process` tell how far its handler
has moved the stack pointers by itself. -/
structure Entry (μ : Type) where
  before : Cpu μ
  after : Cpu μ
  main : BitVec 32
  process : BitVec 32

namespace Entry

def frame (e : Entry μ) : List (BitVec 32) := wordAddrs e.before.frameBase 8

/-- Count the handler's work from `c` to `c'`. -/
def moved (e : Entry μ) (c c' : Cpu μ) : Entry μ :=
  { e with
    main := e.main + (c'.spMain - c.spMain)
    process := e.process + (c'.spProcess - c.spProcess) }

/-- The handler has popped what it has pushed. -/
def Balanced (e : Entry μ) : Prop := e.main = 0 ∧ e.process = 0

/-- What an entry changes of the state that its return depends on. -/
structure Made (e : Entry μ) : Prop where
  lr : e.after.lr = e.before.excReturn
  threadMode : e.after.threadMode = false
  control : e.after.control = e.before.control
  vfp : e.after.vfp = e.before.vfp
  spMain : e.after.spMain = if e.before.usesPsp then e.before.spMain else e.before.frameBase
  spProcess : e.after.spProcess =
    if e.before.usesPsp then e.before.frameBase else e.before.spProcess

/-- The handler of `e` is running, or suspended, with the processor in state `c`. -/
structure Suspended (e : Entry μ) (c : Cpu μ) : Prop where
  threadMode : c.threadMode = false
  control : c.control = e.before.control
  vfp : c.vfp.isSome = e.before.vfp.isSome
  spMain : c.spMain = e.after.spMain + e.main
  spProcess : c.spProcess = e.after.spProcess + e.process

end Entry

section Entries

variable [ArmMemory μ ε] [LawfulMemory μ ε]

theorem takeException_ok {num : BitVec 16} {c c' : Cpu μ} (h : takeException num c = .ok () c') :
    (⟨c, c', 0, 0⟩ : Entry μ).Made ∧ Holds c'.memory c.frameBase c.frameWords ∧
      ∀ b, b.toNat % 4 = 0 → b ∉ wordAddrs c.frameBase 8 →
        ArmMemory.readU32 c'.memory b = ArmMemory.readU32 c.memory b := by
  have hlen : c.frameWords.length < 2 ^ 20 := show 8 < 2 ^ 20 by decide
  have h' : (storeWords c.frameBase c.frameWords >>= fun _ => _) c = _ := h
  obtain ⟨_, c₁, hstore, hrest⟩ := bind_ok_iff.mp h'
  obtain ⟨⟨m, rfl⟩, hholds, hother⟩ := storeWords_ok c.frameBase_aligned hlen hstore
  obtain ⟨_, c₂, hmodify, hrest⟩ := bind_ok_iff.mp hrest
  obtain ⟨handler, c₃, hread, hlast⟩ := bind_ok_iff.mp hrest
  obtain ⟨-, rfl⟩ := memReadU32_ok hread
  injection hmodify with _ hc₂
  injection hlast with _ hc'
  dsimp only at hc₂
  rw [Cpu.setCurrentSp_eq] at hc₂
  subst hc' hc₂
  exact ⟨⟨rfl, rfl, rfl, rfl, rfl, rfl⟩, hholds, hother⟩

omit [LawfulMemory μ ε] in
/-- A return from an intact frame loads its words and moves the stack pointer past it. -/
theorem exceptionReturn_ok {ret : BitVec 32} {c c' : Cpu μ} {saved : Cpu μ}
    (h : exceptionReturn ret c = .ok () c')
    (hframe : Holds c.memory (if ExcReturn.usesPsp ret then c.spProcess else c.spMain)
      saved.frameWords) :
    c' = (c.unstack saved).finishReturn ret
      (if ExcReturn.usesPsp ret then c.spProcess else c.spMain) := by
  generalize hsp : (if ExcReturn.usesPsp ret then c.spProcess else c.spMain) = sp at hframe ⊢
  simp only [Cpu.frameWords, Holds, BitVec.add_assoc, BitVec.reduceAdd, and_true] at hframe
  obtain ⟨f0, f1, f2, f3, f12, flr, fpc, fxpsr⟩ := hframe
  obtain ⟨v0, v1, v2, v3, v12, vlr, vpc, vxpsr, ⟨hv0, hv1, hv2, hv3, hv12, hvlr, hvpc, hvxpsr⟩,
    rfl⟩ := exceptionReturn_inv hsp h
  rw [Cpu.loadFrame, Cpu.unstack, ← f0 v0 hv0, ← f1 v1 hv1, ← f2 v2 hv2, ← f3 v3 hv3,
    ← f12 v12 hv12, ← flr vlr hvlr, ← fpc vpc hvpc, ← fxpsr vxpsr hvxpsr]

end Entries

/-! ## Runs -/

/-- A return to `post` undoes the entry made in `pre`. -/
structure Restored (pre post : Cpu μ) : Prop where
  r0 : post.regs r0 = pre.regs r0
  r1 : post.regs r1 = pre.regs r1
  r2 : post.regs r2 = pre.regs r2
  r3 : post.regs r3 = pre.regs r3
  r12 : post.regs r12 = pre.regs r12
  lr : post.lr = pre.lr
  pc : post.pc = pre.pc
  xpsr : post.xpsr = pre.xpsr
  currentSp : post.currentSp = pre.currentSp
  threadMode : post.threadMode = pre.threadMode
  currentException : post.nvic.currentException = pre.nvic.currentException

/-- The entries that their returns undo. -/
structure Cpu.Resumable (c : Cpu μ) : Prop where
  aligned : c.currentSp &&& 0x7 = 0
  withoutFpu : c.isFpuActive = false
  ipsr : c.threadMode = true → c.xpsr &&& 0x1FF = 0
  idle : c.nvic.currentException = 0

section Runs

variable [ArmMemory μ ε]

/-- What a handler may do by itself: anything but change the mode and overwrite live frames. No
instruction writes CONTROL. -/
structure Works (live : List (Entry μ)) (c c' : Cpu μ) : Prop where
  threadMode : c'.threadMode = c.threadMode
  control : c'.control = c.control
  vfp : c'.vfp.isSome = c.vfp.isSome
  frames : ∀ e ∈ live, ∀ a ∈ e.frame,
    ArmMemory.readU32 c'.memory a = ArmMemory.readU32 c.memory a

/-- Runs with the exceptions that are live, innermost first, and the states before the entry and
after the return of those that are over. A handler returns with the value that its entry left in
LR, when its own pushes and pops are balanced. Between exceptions anything may happen. -/
inductive Run : Cpu μ → List (Entry μ) → List (Cpu μ × Cpu μ) → Prop
  | start (c : Cpu μ) : Run c [] []
  | thread {c : Cpu μ} {past : List (Cpu μ × Cpu μ)} (c' : Cpu μ) (h : Run c [] past) :
      Run c' [] past
  | work {c c' : Cpu μ} {e : Entry μ} {live : List (Entry μ)} {past : List (Cpu μ × Cpu μ)}
      (h : Run c (e :: live) past) (hw : Works (e :: live) c c') :
      Run c' (e.moved c c' :: live) past
  | enter {c c' : Cpu μ} {live : List (Entry μ)} {past : List (Cpu μ × Cpu μ)} {num : BitVec 16}
      (h : Run c live past) (he : takeException num c = .ok () c')
      (hfree : ∀ e ∈ live, ∀ a ∈ e.frame, a ∉ wordAddrs c.frameBase 8) :
      Run c' (⟨c, c', 0, 0⟩ :: live) past
  | leave {c c' : Cpu μ} {e : Entry μ} {live : List (Entry μ)} {past : List (Cpu μ × Cpu μ)}
      (h : Run c (e :: live) past) (hb : e.Balanced)
      (hr : exceptionReturn e.after.lr c = .ok () c') : Run c' live ((e.before, c') :: past)

/-- Every live handler is suspended in the state in which the next one was entered. -/
def Chain : Cpu μ → List (Entry μ) → Prop
  | _, [] => True
  | c, e :: live => e.Made ∧ e.Suspended c ∧ Chain e.before live

/-- The invariant of runs whose past returns have all undone their entries. -/
structure Nested (c : Cpu μ) (live : List (Entry μ)) : Prop where
  chain : Chain c live
  frames : ∀ e ∈ live, Holds c.memory e.before.frameBase e.before.frameWords

/-- What a balanced return leaves, in terms of the state before the entry. -/
structure Returned (pre c post : Cpu μ) : Prop where
  regs : ∀ n ∈ [CortexM.r0, r1, r2, r3, r12], post.regs n = pre.regs n
  lr : post.lr = pre.lr
  pc : post.pc = pre.pc
  xpsr : post.xpsr = if pre.threadMode then pre.xpsr &&& 0xFFFFFE00 else pre.xpsr
  threadMode : post.threadMode = pre.threadMode
  control : post.control = pre.control
  vfp : post.vfp.isSome = pre.vfp.isSome
  spMain : post.spMain = if pre.usesPsp then pre.spMain else pre.frameBase + 32
  spProcess : post.spProcess = if pre.usesPsp then pre.frameBase + 32 else pre.spProcess
  currentException : post.nvic.currentException = 0
  memory : post.memory = c.memory

theorem exceptionReturn_returned {e : Entry μ} {c c' : Cpu μ} (hm : e.Made) (hs : e.Suspended c)
    (hb : e.Balanced) (hf : Holds c.memory e.before.frameBase e.before.frameWords)
    (hr : exceptionReturn e.after.lr c = .ok () c') : Returned e.before c c' := by
  have hmain : c.spMain = if e.before.usesPsp then e.before.spMain else e.before.frameBase := by
    rw [hs.spMain, hb.1, hm.spMain]
    exact BitVec.add_zero _
  have hprocess : c.spProcess =
      if e.before.usesPsp then e.before.frameBase else e.before.spProcess := by
    rw [hs.spProcess, hb.2, hm.spProcess]
    exact BitVec.add_zero _
  rw [hm.lr] at hr
  have hsp : (if ExcReturn.usesPsp e.before.excReturn then c.spProcess else c.spMain) =
      e.before.frameBase := by
    rw [e.before.excReturn_usesPsp, hmain, hprocess]
    cases e.before.usesPsp <;> rfl
  have hframe : Holds c.memory
      (if ExcReturn.usesPsp e.before.excReturn then c.spProcess else c.spMain)
      e.before.frameWords := by
    rw [hsp]
    exact hf
  have hc' := exceptionReturn_ok hr hframe
  rw [hsp] at hc'
  have hsize : (if c.vfp.isSome && ExcReturn.fpuActive e.before.excReturn then
      exceptionFrameSizeFpu else exceptionFrameSize) = 32 := by
    rw [e.before.excReturn_fpuActive, Bool.and_false]
    rfl
  refine ⟨?_, ?_, ?_, ?_, ?_, ?_, ?_, ?_, ?_, ?_, ?_⟩
  · rw [hc']
    intro n hn
    simp only [List.mem_cons, List.not_mem_nil, or_false] at hn
    rcases hn with rfl | rfl | rfl | rfl | rfl <;> rfl
  · rw [hc']; rfl
  · rw [hc']; rfl
  · rw [hc', ← e.before.excReturn_isThreadMode]; rfl
  · rw [hc']; exact e.before.excReturn_isThreadMode
  · rw [hc']; exact hs.control
  · rw [hc']; exact hs.vfp
  · rw [hc', ← hsize]
    show (if ExcReturn.usesPsp e.before.excReturn then c.spMain else _) = _
    rw [e.before.excReturn_usesPsp, hmain]
    cases e.before.usesPsp <;> rfl
  · rw [hc', ← hsize]
    show (if ExcReturn.usesPsp e.before.excReturn then _ else c.spProcess) = _
    rw [e.before.excReturn_usesPsp, hprocess]
    cases e.before.usesPsp <;> rfl
  · rw [hc']; rfl
  · rw [hc']; rfl

theorem and_seven_eq_zero_iff (x : BitVec 32) : x &&& 0x7 = 0 ↔ x.toNat % 8 = 0 := by
  have hand : (x &&& 0x7).toNat = x.toNat % 8 := by
    rw [BitVec.toNat_and]
    exact Nat.and_two_pow_sub_one_eq_mod x.toNat 3
  rw [← hand]
  exact ⟨fun h => by rw [h]; rfl, fun h => BitVec.eq_of_toNat_eq h⟩

/-- The floating-point frame is 72 bytes larger than what a return pops, which no alignment makes
up for. -/
theorem Cpu.frameBase_add_eq_iff (c : Cpu μ) :
    c.frameBase + 32 = c.currentSp ↔ c.currentSp &&& 0x7 = 0 ∧ c.isFpuActive = false := by
  rw [and_seven_eq_zero_iff, ← BitVec.toNat_inj, BitVec.toNat_add, frameBase,
    toNat_and_not_seven, BitVec.toNat_sub]
  have hlt := c.currentSp.isLt
  have h32 : (32 : BitVec 32).toNat = 32 := rfl
  cases hfpu : c.isFpuActive with
  | false =>
    have hsize : c.frameSize.toNat = 32 := by
      rw [frameSize, hfpu, Bool.and_false]
      rfl
    rw [hsize, h32]
    simp only [and_true]
    omega
  | true =>
    have hsome : c.vfp.isSome = true := by
      cases hv : c.vfp with
      | none =>
        rw [isFpuActive, hv] at hfpu
        cases hfpu
      | some v => rfl
    have hsize : c.frameSize.toNat = 104 := by
      rw [frameSize, hfpu, hsome]
      rfl
    rw [hsize, h32]
    simp only [Bool.true_eq_false, and_false, iff_false]
    omega

theorem and_ipsr_eq_iff (x : BitVec 32) : x &&& 0xFFFFFE00 = x ↔ x &&& 0x1FF = 0 := by
  constructor
  · intro h
    rw [← h, BitVec.and_assoc]
    exact BitVec.and_zero
  · intro h
    have hsplit : (0xFFFFFE00 : BitVec 32) ||| 0x1FF = BitVec.allOnes 32 := by decide
    calc x &&& 0xFFFFFE00 = (x &&& 0xFFFFFE00) ||| (x &&& 0x1FF) := by
          rw [h]
          exact BitVec.or_zero.symm
      _ = x &&& (0xFFFFFE00 ||| 0x1FF) := BitVec.and_or_distrib_left.symm
      _ = x := by rw [hsplit, BitVec.and_allOnes]

/-- A balanced return undoes its entry exactly if the entry is resumable. -/
theorem Returned.restored_iff {pre c post : Cpu μ} (h : Returned pre c post) :
    Restored pre post ↔ pre.Resumable := by
  have hpsp : post.usesPsp = pre.usesPsp := by
    rw [Cpu.usesPsp, Cpu.usesPsp, h.threadMode, h.control]
  have hsp : post.currentSp = pre.frameBase + 32 := by
    rw [Cpu.currentSp, hpsp, h.spMain, h.spProcess]
    cases pre.usesPsp <;> rfl
  constructor
  · intro hr
    obtain ⟨haligned, hfpu⟩ := pre.frameBase_add_eq_iff.mp (hsp.symm.trans hr.currentSp)
    refine ⟨haligned, hfpu, fun hmode => ?_, hr.currentException.symm.trans h.currentException⟩
    have hx := h.xpsr.symm.trans hr.xpsr
    rw [hmode, if_pos rfl] at hx
    exact (and_ipsr_eq_iff _).mp hx
  · intro hr
    refine ⟨h.regs _ ?_, h.regs _ ?_, h.regs _ ?_, h.regs _ ?_, h.regs _ ?_, h.lr, h.pc, ?_,
      hsp.trans (pre.frameBase_add_eq_iff.mpr ⟨hr.aligned, hr.withoutFpu⟩), h.threadMode,
      h.currentException.trans hr.idle.symm⟩
    iterate 5 decide
    rw [h.xpsr]
    split
    · rename_i hmode
      exact (and_ipsr_eq_iff _).mpr (hr.ipsr hmode)
    · rfl

/-- After it the handler that was interrupted goes on where it was. -/
theorem Returned.suspended {e : Entry μ} {pre c post : Cpu μ} (h : Returned pre c post)
    (hr : pre.Resumable) (hs : e.Suspended pre) : e.Suspended post := by
  have hsp : pre.frameBase + 32 = pre.currentSp :=
    pre.frameBase_add_eq_iff.mpr ⟨hr.aligned, hr.withoutFpu⟩
  have hcur : pre.currentSp = if pre.usesPsp then pre.spProcess else pre.spMain := rfl
  refine ⟨h.threadMode.trans hs.threadMode, h.control.trans hs.control, h.vfp.trans hs.vfp,
    Eq.trans ?_ hs.spMain, Eq.trans ?_ hs.spProcess⟩
  · rw [h.spMain, hsp, hcur]
    cases pre.usesPsp <;> rfl
  · rw [h.spProcess, hsp, hcur]
    cases pre.usesPsp <;> rfl

variable {live : List (Entry μ)}

theorem Nested.work {e : Entry μ} {c c' : Cpu μ} (h : Nested c (e :: live))
    (hw : Works (e :: live) c c') : Nested c' (e.moved c c' :: live) := by
  obtain ⟨hmade, hsus, hrest⟩ := h.chain
  have hmove : ∀ a d x y : BitVec 32, x = a + d → y = a + (d + (y - x)) := by
    rintro a d x y rfl
    rw [← BitVec.add_assoc, BitVec.add_comm (a + d), BitVec.sub_add_cancel]
  refine ⟨⟨⟨hmade.lr, hmade.threadMode, hmade.control, hmade.vfp, hmade.spMain, hmade.spProcess⟩,
    ⟨hw.threadMode.trans hsus.threadMode, hw.control.trans hsus.control, hw.vfp.trans hsus.vfp,
      hmove _ _ _ _ hsus.spMain, hmove _ _ _ _ hsus.spProcess⟩, hrest⟩, ?_⟩
  intro e' he'
  rcases List.mem_cons.mp he' with rfl | he'
  · exact (h.frames e List.mem_cons_self).congr (hw.frames e List.mem_cons_self)
  · exact (h.frames e' (List.mem_cons_of_mem e he')).congr
      (hw.frames e' (List.mem_cons_of_mem e he'))

theorem Nested.leave {e : Entry μ} {c c' : Cpu μ} (h : Nested c (e :: live)) (hb : e.Balanced)
    (hr : exceptionReturn e.after.lr c = .ok () c') :
    (Restored e.before c' ↔ e.before.Resumable) ∧ (e.before.Resumable → Nested c' live) := by
  obtain ⟨hmade, hsus, hrest⟩ := h.chain
  have hret := exceptionReturn_returned hmade hsus hb (h.frames e List.mem_cons_self) hr
  refine ⟨hret.restored_iff, fun hres => ⟨?_, fun e' he' => ?_⟩⟩
  · cases live with
    | nil => trivial
    | cons e' live =>
      obtain ⟨hmade', hsus', hrest'⟩ := hrest
      exact ⟨hmade', hret.suspended hres hsus', hrest'⟩
  · rw [hret.memory]
    exact h.frames e' (List.mem_cons_of_mem e he')

variable [LawfulMemory μ ε]

theorem Nested.enter {c c' : Cpu μ} {num : BitVec 16} (h : Nested c live)
    (he : takeException num c = .ok () c')
    (hfree : ∀ e ∈ live, ∀ a ∈ e.frame, a ∉ wordAddrs c.frameBase 8) :
    Nested c' (⟨c, c', 0, 0⟩ :: live) := by
  obtain ⟨hmade, hholds, hother⟩ := takeException_ok he
  refine ⟨⟨hmade, ⟨hmade.threadMode, hmade.control, congrArg Option.isSome hmade.vfp,
    (BitVec.add_zero _).symm, (BitVec.add_zero _).symm⟩, h.chain⟩, ?_⟩
  intro e' he'
  rcases List.mem_cons.mp he' with rfl | he'
  · exact hholds
  · exact (h.frames e' he').congr fun a ha =>
      hother a (aligned_wordAddrs e'.before.frameBase_aligned ha) (hfree e' he' a ha)

/-- In every run, all returns undo their entries exactly if all entries they belong to are
resumable. -/
theorem returns_restore_iff {c : Cpu μ} {live : List (Entry μ)} {past : List (Cpu μ × Cpu μ)}
    (h : Run c live past) :
    (∀ p ∈ past, Restored p.1 p.2) ↔ ∀ p ∈ past, p.1.Resumable := by
  -- along with the equivalence goes the invariant, which holds as long as the entries that are
  -- over were resumable
  suffices hboth : ((∀ p ∈ past, Restored p.1 p.2) ↔ ∀ p ∈ past, p.1.Resumable) ∧
      ((∀ p ∈ past, p.1.Resumable) → Nested c live) from hboth.1
  induction h with
  | start c => exact ⟨by simp, fun _ => ⟨trivial, fun e he => by cases he⟩⟩
  | thread c' h ih => exact ⟨ih.1, fun hall => ⟨trivial, fun e he => by cases he⟩⟩
  | work h hw ih => exact ⟨ih.1, fun hall => (ih.2 hall).work hw⟩
  | enter h he hfree ih => exact ⟨ih.1, fun hall => (ih.2 hall).enter he hfree⟩
  | leave h hb hr ih =>
    obtain ⟨hiff, hinv⟩ := ih
    simp only [List.forall_mem_cons]
    refine ⟨⟨fun ⟨hlast, hall⟩ => ?_, fun ⟨hlast, hall⟩ => ?_⟩, fun ⟨hlast, hall⟩ => ?_⟩
    · have hres := hiff.mp hall
      exact ⟨((hinv hres).leave hb hr).1.mp hlast, hres⟩
    · exact ⟨((hinv hall).leave hb hr).1.mpr hlast, hiff.mpr hall⟩
    · exact ((hinv hall).leave hb hr).2 hlast

end Runs

/-! ## Flat memory -/

namespace FlatMemory

variable {m m' : FlatMemory}

theorem translate_ok {addr offset : Word} {n : Nat} (h : m.translate addr n = .ok offset) :
    offset.toNat + m.base.toNat = addr.toNat := by
  unfold translate at h
  split at h
  · cases h
  · rename_i hin
    injection h with hoff
    have hle : m.base ≤ addr := BitVec.not_lt.mp fun hlt => hin (Or.inl hlt)
    have hle' : m.base.toNat ≤ addr.toNat := hle
    rw [← hoff, BitVec.toNat_sub_of_le hle]
    omega

theorem translate_put {addr : Word} {n i k v : Nat} :
    ({ m with data := m.data.put i k v } : FlatMemory).translate addr n = m.translate addr n := rfl

theorem writeU32_ok {a v : BitVec 32} (h : m.writeU32 a v = (.ok (), m')) :
    ∃ offset, m.translate (a.setWidth 64) 4 = .ok offset ∧
      m' = { m with data := m.data.put offset.toNat 4 v.toNat } := by
  unfold writeU32 at h
  split at h
  · rename_i offset hoff
    exact ⟨offset, hoff, (Prod.mk.inj h).2.symm⟩
  · cases (Prod.mk.inj h).1

instance : LawfulMemory FlatMemory MemoryError where
  read_stored := by
    intro m m' a v w hwrite hread
    obtain ⟨offset, hoff, rfl⟩ := writeU32_ok hwrite
    have hread' : readU32 _ a = .ok w := hread
    unfold readU32 at hread'
    rw [translate_put, hoff] at hread'
    dsimp only at hread'
    injection hread' with hw
    rw [← hw, FlatMem.value_put_same]
    exact BitVec.eq_of_toNat_eq (by
      have hlt := v.isLt
      rw [BitVec.toNat_ofNat]
      omega)
  read_other := by
    intro m m' a b v hwrite hapart
    obtain ⟨offset, hoff, rfl⟩ := writeU32_ok hwrite
    show readU32 _ b = readU32 m b
    unfold readU32
    rw [translate_put]
    cases hb : m.translate (b.setWidth 64) 4 with
    | error e => rfl
    | ok other =>
      have ha := translate_ok hoff
      have hb := translate_ok hb
      rw [BitVec.toNat_setWidth_of_le (by decide)] at ha hb
      dsimp only
      rw [FlatMem.value_put_of_disjoint (by omega)]

end FlatMemory

/-! ## A processor after reset -/

/-- A processor in thread mode with 64 KiB of memory. -/
def booted (sp : BitVec 32) (vfp : Option Vfp) : Cpu FlatMemory where
  regs _ := 0
  spMain := sp
  spProcess := 0
  lr := 0xFFFFFFFF
  pc := 0x100
  xpsr := 0x01000000
  faultmask := false
  control := 0
  threadMode := true
  currentException := 0
  memory := { base := 0, data := { size := 0x10000, byte := fun _ => 0 } }
  nvic :=
    { numInterrupts := 32, pending := fun _ => 0, active := fun _ => 0, currentException := 0,
      excReturn := 0xFFFFFFFF, implemented := Nat.le_add_left 32 464 }
  vtor := 0
  vfp := vfp

/-- One exception with what its handler does; nothing by default. -/
def enterAndReturn (num : BitVec 16) (handler : Cpu FlatMemory → Cpu FlatMemory := id) :
    Command MemoryError (Cpu FlatMemory) Unit := do
  takeException num
  let c ← get
  set (handler c)
  exceptionReturn c.lr

def overwriteRegs (c : Cpu FlatMemory) : Cpu FlatMemory := { c with regs := fun _ => 0xFFFF }

/-- A different value in each register. -/
def preloaded : Cpu FlatMemory :=
  { booted 0x1000 none with regs := fun n => BitVec.ofNat 32 (n + 1) }

/-- An interrupt from thread mode with an aligned stack pointer, whose handler overwrites all
registers: those of the frame come back, R4 does not. -/
theorem returns_restore_iff_overwritten :
    ((enterAndReturn 16 overwriteRegs).run? preloaded).map (fun c => (c.regs r12, c.regs 4)) =
        some (13, 0xFFFF) ∧
      ∃ c : Cpu FlatMemory, (enterAndReturn 16 overwriteRegs).run? preloaded = some c ∧
        ((∀ p ∈ [(preloaded, c)], Restored p.1 p.2) ↔
          ∀ p ∈ [(preloaded, c)], p.1.Resumable) := by
  obtain ⟨_, c, h⟩ := exists_ok_of_run? (x := enterAndReturn 16 overwriteRegs) (s := preloaded)
    (by decide +kernel)
  obtain ⟨_, c₁, henter, hleave⟩ := bind_ok_iff.mp h
  have hentered : Run c₁ [⟨preloaded, c₁, 0, 0⟩] [] :=
    .enter (.start preloaded) henter fun e he => by cases he
  have hworked : Run (overwriteRegs c₁) [(⟨preloaded, c₁, 0, 0⟩ : Entry FlatMemory).moved c₁
      (overwriteRegs c₁)] [] := hentered.work ⟨rfl, rfl, rfl, fun _ _ _ _ => rfl⟩
  have hrun : Run c [] [(preloaded, c)] :=
    .leave hworked (by simp [Entry.moved, Entry.Balanced, overwriteRegs]) hleave
  exact ⟨by decide +kernel, c, by rw [run?, h], returns_restore_iff hrun⟩

/-- The return from an interrupt that has interrupted another leaves the controller idle; the
return to an unaligned stack and the one from a floating-point frame lose the stack pointer. -/
theorem returns_lose_state :
    ((takeException 16).run? (booted 0x1000 none)).map (fun c => c.nvic.currentException)
      = some 16 ∧
    ((takeException 16 >>= fun _ => enterAndReturn 17).run? (booted 0x1000 none)).map
      (fun c => c.nvic.currentException) = some 0 ∧
    ((enterAndReturn 16).run? (booted 0x1004 none)).map Cpu.currentSp = some 0x1000 ∧
    ((enterAndReturn 16).run? (booted 0x1000 (some ⟨0x40000000⟩))).map Cpu.currentSp
      = some 0xFB8 := by
  decide +kernel

end Rax.CortexM

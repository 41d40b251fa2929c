import Rax.CortexM.Execute

/-!
# Loads of PC that return from an exception

BX, POP and the wide loads put a value into PC that may be an EXC_RETURN. Each is compared with its
own other effects, after which an exception return is to be performed in handler mode and never in
thread mode. BX and the short POP look at the value alone and the wide loads at nothing.
-/

namespace Rax.CortexM

open Command

variable {μ ε : Type}

/-- The instructions that load PC, each with the bits that make it one. -/
inductive PcLoad
  | bx (insn : BitVec 16) (op : ((insn >>> 8) &&& 0x3).toNat = 0b11)
  | pop (insn : BitVec 16) (pc : (insn >>> 8) &&& 1 ≠ 0)
  | multiple (insn : BitVec 32) (load : (insn >>> 20) &&& 1 ≠ 0) (pc : (15 : Nat) ∈ fullList insn)
  | word (insn : BitVec 32) (pc : regAt32 insn 12 = 15)

/-- The instructions that compare the loaded value with the EXC_RETURN values. -/
def PcLoad.checks : PcLoad → Bool
  | .bx .. | .pop .. => true
  | .multiple .. | .word .. => false

section

variable [ArmMemory μ ε]

def PcLoad.exec : PcLoad → Exec μ ε CpuExit
  | .bx insn _ => execSpecialData insn
  | .pop insn _ => execPop insn
  | .multiple insn _ _ => execLoadStoreMultiple32 insn
  | .word insn _ => execLoadWord32 insn

/-- The other updates of an instruction, and the value that it loads into PC. -/
def PcLoad.loaded : PcLoad → Exec μ ε (BitVec 32)
  | .bx insn _ => fun c => .ok (c.reg (regAt16 insn 3 0xF))
      (if (insn >>> 7) &&& 1 ≠ 0 then { c with lr := (c.pc - 2) ||| 1 } else c)
  | .pop insn _ => do
    let c ← get
    loadLoop (lowList insn) c.currentSp
    let value ← readWord (afterWords c.currentSp (lowList insn))
    modify fun c' => c'.setCurrentSp (afterWords c.currentSp (lowList insn) + 4)
    pure value
  | .multiple insn _ _ => do
    let c ← get
    let rn := regAt32 insn 16
    let start := multipleStart insn (c.reg rn) (fullList insn).length
    loadLoop (listBelowPc insn) start
    let value ← readWord (afterWords start (listBelowPc insn))
    if (insn >>> 21) &&& 1 ≠ 0 ∧ ¬((insn >>> 20) &&& 1 ≠ 0 ∧ rn ∈ fullList insn) then
      modify fun c' => c'.putReg rn (multipleEnd insn (c.reg rn) (fullList insn).length)
    pure value
  | .word insn _ => do
    let c ← get
    match computeAddr32 insn (regAt32 insn 16) c with
    | none => throw (.undefinedInstruction insn)
    | some (addr, base) =>
      let value ← readWord addr
      modify fun c => writeBack (regAt32 insn 16) base c
      pure value

/-- In handler mode an EXC_RETURN value performs the exception return from the state that the
instruction leaves, and in thread mode no value does. -/
def PcLoad.ReturnsRightly (i : PcLoad) (c : Cpu μ) : Prop :=
  ∀ value upd, (i.loaded : Exec μ ε _) c = .ok value upd →
    (c.threadMode = false → 0xF0000000#32 ≤ value →
      (i.exec : Exec μ ε _) c = execExceptionReturn value upd) ∧
    (c.threadMode = true → (i.exec : Exec μ ε _) c ≠ execExceptionReturn value upd)

/-! ## An exception return moves a stack pointer -/

/-- Both stack pointers. -/
def Cpu.stackPointers (c : Cpu μ) : BitVec 32 × BitVec 32 := (c.spMain, c.spProcess)

variable {value : BitVec 32}

theorem exceptionReturn_moves {c c' : Cpu μ}
    (h : (exceptionReturn value : Command ε (Cpu μ) Unit) c = .ok () c') :
    c'.stackPointers ≠ c.stackPointers := by
  obtain ⟨v0, v1, v2, v3, v12, vlr, vpc, vxpsr, -, rfl⟩ := exceptionReturn_inv rfl h
  -- The frame that is left behind has 32 or 104 bytes.
  have hne : ∀ sp : BitVec 32, ∀ b : Bool,
      sp + (if b then exceptionFrameSizeFpu else exceptionFrameSize) ≠ sp := by
    intro sp b heq
    cases b <;> simp [exceptionFrameSize, exceptionFrameSizeFpu] at heq
  intro hsame
  simp only [Cpu.stackPointers, Cpu.finishReturn, Prod.mk.injEq] at hsame
  by_cases hpsp : ExcReturn.usesPsp value = true
  · simp only [hpsp, if_true] at hsame
    exact hne _ _ hsame.2
  · simp only [hpsp, Bool.false_eq_true, if_false] at hsame
    exact hne _ _ hsame.1

theorem execExceptionReturn_ne {c c' : Cpu μ} {exit : CpuExit}
    (h : c'.stackPointers = c.stackPointers) :
    (.ok exit c' : EStateM.Result (ExecError ε) (Cpu μ) CpuExit) ≠
      (execExceptionReturn value : Exec μ ε CpuExit) c := by
  intro heq
  obtain ⟨_, c₁, hreturn, hpure⟩ := bind_ok_iff.mp heq.symm
  injection hpure with _ hc
  subst hc
  unfold ofMemory at hreturn
  split at hreturn
  · rename_i hok
    injection hreturn with _ hs
    subst hs
    exact exceptionReturn_moves hok h
  · cases hreturn

/-! ## What each instruction does with the value -/

/-- The instructions that look at the value branch to it, or return, after their other updates. -/
theorem PcLoad.exec_of_checks {i : PcLoad} (hi : i.checks = true) {c upd : Cpu μ}
    (h : (i.loaded : Exec μ ε _) c = .ok value upd) :
    (i.exec : Exec μ ε _) c = execBranchExchange value upd := by
  cases i with
  | bx insn op =>
    simp only [loaded] at h
    injection h with hvalue hupd
    subst hvalue hupd
    simp only [exec, execSpecialData, op]
  | pop insn pc =>
    simp only [loaded, bind_get] at h
    obtain ⟨_, c₁, hloop, h⟩ := bind_ok_iff.mp h
    obtain ⟨value', c₂, hread, h⟩ := bind_ok_iff.mp h
    obtain ⟨rfl, rfl⟩ : value' = value ∧
        c₂.setCurrentSp (afterWords c.currentSp (lowList insn) + 4) = upd := by
      injection h with ha hs
      exact ⟨ha, hs⟩
    change execPop insn c = _
    unfold execPop
    rw [bind_get, bind_of_ok hloop, if_pos pc, bind_of_ok hread]
    rfl
  | multiple => cases hi
  | word => cases hi

theorem Cpu.stackPointers_putReg_goTo (c : Cpu μ) (n : Nat) (value target : BitVec 32) :
    ((c.goTo target).putReg n value).stackPointers = (c.putReg n value).stackPointers := by
  unfold Cpu.putReg Cpu.setCurrentSp Cpu.setReg
  split_ifs <;> first | rfl | contradiction

/-- The wide loads go on in any case, with the stack pointers that their other updates leave. -/
theorem PcLoad.exec_of_not_checks {i : PcLoad} (hi : i.checks = false) {c upd : Cpu μ}
    (h : (i.loaded : Exec μ ε _) c = .ok value upd) :
    ∃ c', (i.exec : Exec μ ε _) c = .ok .cont c' ∧ c'.stackPointers = upd.stackPointers := by
  cases i with
  | bx => cases hi
  | pop => cases hi
  | multiple insn load pc =>
    simp only [loaded, bind_get] at h
    obtain ⟨_, c₁, hloop, h⟩ := bind_ok_iff.mp h
    obtain ⟨value', c₂, hread, h⟩ := bind_ok_iff.mp h
    have hne : fullList insn ≠ [] := List.ne_nil_of_mem pc
    have hloadPc : (loadPc (afterWords (multipleStart insn (c.reg (regAt32 insn 16))
        (fullList insn).length) (listBelowPc insn)) : Exec μ ε Unit) c₁ =
        .ok () (c₂.goTo (value' &&& ~~~1)) := by
      unfold loadPc
      rw [bind_of_ok hread]
      rfl
    change ∃ c', execLoadStoreMultiple32 insn c = .ok .cont c' ∧ _
    unfold execLoadStoreMultiple32
    rw [bind_get, if_neg hne]
    dsimp only
    rw [if_pos load, bind_of_ok hloop, if_pos pc, bind_of_ok hloadPc]
    by_cases hbase : (insn >>> 21) &&& 1 ≠ 0 ∧
        ¬((insn >>> 20) &&& 1 ≠ 0 ∧ regAt32 insn 16 ∈ fullList insn)
    · rw [if_pos hbase] at h
      injection h with _ hupd
      rw [if_pos hbase]
      exact ⟨_, rfl, (Cpu.stackPointers_putReg_goTo c₂ _ _ (value' &&& ~~~1)).trans
        (congrArg Cpu.stackPointers hupd)⟩
    · rw [if_neg hbase] at h
      injection h with _ hupd
      rw [if_neg hbase]
      subst hupd
      exact ⟨_, rfl, rfl⟩
  | word insn pc =>
    simp only [loaded, bind_get] at h
    change ∃ c', execLoadWord32 insn c = .ok .cont c' ∧ _
    unfold execLoadWord32
    rw [bind_get]
    cases haddr : computeAddr32 insn (regAt32 insn 16) c with
    | none =>
      simp only [haddr] at h
      cases h
    | some access =>
      obtain ⟨addr, base⟩ := access
      simp only [haddr] at h ⊢
      obtain ⟨value', c₂, hread, h⟩ := bind_ok_iff.mp h
      injection h with _ hupd
      rw [bind_of_ok hread, pc]
      refine ⟨_, rfl, ?_⟩
      rw [← hupd]
      cases base with
      | none => rfl
      | some v => exact Cpu.stackPointers_putReg_goTo c₂ _ v (value' &&& ~~~1)

/-- A load of PC is right exactly if its value is no EXC_RETURN, or it looks at the value in handler
mode, or it does not in thread mode. -/
theorem pc_load_returns_iff (i : PcLoad) (c : Cpu μ) :
    i.ReturnsRightly (ε := ε) c ↔
      ∀ value upd, (i.loaded : Exec μ ε _) c = .ok value upd →
        value < 0xF0000000#32 ∨ i.checks = !c.threadMode := by
  refine forall_congr' fun value => forall_congr' fun upd => forall_congr' fun hload => ?_
  cases hi : i.checks with
  | true =>
    rw [i.exec_of_checks hi hload, execBranchExchange]
    by_cases hvalue : 0xF0000000#32 ≤ value
    · rw [if_pos hvalue]
      have hnot : ¬value < 0xF0000000#32 := BitVec.not_lt.mpr hvalue
      cases c.threadMode <;> simp [hnot]
    · rw [if_neg hvalue]
      have hne : (.ok .cont (upd.goTo (value &&& ~~~1)) : EStateM.Result (ExecError ε) (Cpu μ) _) ≠
          (execExceptionReturn value : Exec μ ε CpuExit) upd := execExceptionReturn_ne rfl
      have hlt : value < 0xF0000000#32 := BitVec.not_le.mp hvalue
      exact ⟨fun _ => .inl hlt, fun _ => ⟨fun _ hle => absurd hle hvalue, fun _ => hne⟩⟩
  | false =>
    obtain ⟨c', hexec, hsp⟩ := i.exec_of_not_checks hi hload
    have hne : (.ok .cont c' : EStateM.Result (ExecError ε) (Cpu μ) CpuExit) ≠
        (execExceptionReturn value : Exec μ ε CpuExit) upd := execExceptionReturn_ne hsp
    rw [hexec]
    cases hmode : c.threadMode with
    | true => simp [hne]
    | false =>
      simp only [hne, forall_const, Bool.false_eq_true, false_implies, and_true, Bool.not_false,
        or_false]
      exact BitVec.not_le

end

/-! ## Both errors -/

/-- A memory whose words are all the same. -/
structure OneWord where
  value : BitVec 32

instance : ArmMemory OneWord Unit where
  readU32 m _ := .ok m.value
  writeU32 m _ _ := (.ok (), m)

instance : Inhabited OneWord := ⟨⟨ExcReturn.threadMsp⟩⟩

/-- A processor in either mode whose registers and stack hold an EXC_RETURN value. -/
def returning (threadMode : Bool) : Cpu OneWord :=
  { (probe (fun _ => ExcReturn.threadMsp) false : Cpu OneWord) with threadMode }

/-- `pop.w {pc}`, which is a load of several registers. -/
def PcLoad.popWide : PcLoad := .multiple 0xE8BD8000 (by decide) (by decide)

/-- `bx lr`. -/
def PcLoad.bxLr : PcLoad := .bx 0x4770 (by decide)

/-- A wide pop of an EXC_RETURN value does not return from a handler, and `bx` with one returns
although no handler runs. -/
theorem wide_pop_and_bx_wrong :
    ¬PcLoad.popWide.ReturnsRightly (ε := Unit) (returning false) ∧
      ¬PcLoad.bxLr.ReturnsRightly (ε := Unit) (returning true) := by
  constructor
  · intro h
    obtain ⟨c', hexec, hsp⟩ := PcLoad.popWide.exec_of_not_checks (ε := Unit) rfl
      (show PcLoad.popWide.loaded (returning false) = .ok ExcReturn.threadMsp _ from rfl)
    have hreturn := (h _ _ rfl).1 rfl (by decide)
    exact execExceptionReturn_ne hsp (hexec.symm.trans hreturn)
  · intro h
    exact (h _ _ rfl).2 rfl rfl

end Rax.CortexM

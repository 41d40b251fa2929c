import Rax.Smir.Optimize.Tables

/-!
# Which registers an operation writes

Read off the interpreter. `targets` lists the writes of an operation that completes, each
with the way it is stored; the sticky overflow bit comes in addition. From it follow the
three facts that the passes rely on: only `dests` and `hiddenDests` are written, a fully
defining operation writes every destination that it does not leave alone, and its writes
do not look at what they replace.
-/

namespace Rax.Smir

variable {μ : Type}

/-- Destination and mode of a write. -/
def RegWrite.target (w : RegWrite) : VReg × WriteMode := (w.dst, w.mode)

namespace OpKind

open Interpret

/-- Quotient and remainder of a division, from what it reads. -/
def quotient (env : Env) (i : Inputs μ) (signed : Bool) (src1 : VReg) (src2 : SrcOperand)
    (width : OpWidth) : Option (Word × Word) :=
  quotRem signed (env.arch == .x86) width (i.read src1) (readSrcOperand i.read src2)
    (i.read .rax) (i.read .rdx)

/-- Whether a compare-and-exchange finds the accumulator in its destination. -/
def exchanges (i : Inputs μ) (dst : X86GprOperand) (width : OpWidth) : Bool :=
  readGprOperand { reg := .rax } width (i.read .rax) = readGprOperand dst width (i.read dst.vreg)

def gprOperandMode (o : X86GprOperand) (width : OpWidth) : WriteMode :=
  if o.highByte then .highByte else .part width

def loadMode (width : MemWidth) : SignExtend → WriteMode
  | .zero => .part (width.toOpWidth.getD .w64)
  | .sign => .raw

/-- The writes of an operation that completes, apart from the sticky overflow bit. -/
def targets (env : Env) (i : Inputs μ) : OpKind μ → List (VReg × WriteMode)
  | .arith _ dst _ _ width _ | .neg dst _ width _ | .logic _ dst _ _ width _
  | .not dst _ width | .shift _ dst _ _ width _ | .doubleShift _ dst _ _ width _
  | .x86NddDoubleShift dst _ _ _ width _ _ | .rotate _ dst _ _ width _
  | .rotateCarry _ dst _ _ width _ | .bidirShift dst _ _ _ width | .satN dst _ _ _ _ width
  | .bitMod _ dst _ _ width | .scan _ dst _ width _ | .bextr dst _ _ width _
  | .bzhi dst _ _ width _ | .x86Bls dst _ width _ _ | .x86Tbm dst _ width _ _
  | .x86Adx dst _ _ width _ _ | .pdep dst _ _ width | .pext dst _ _ width
  | .bitCount _ dst _ width | .x86Count dst _ width _ _ | .bswap dst _ width
  | .rbit dst _ width | .satOrigShl dst _ _ _ width | .mulAcc _ dst _ _ _ width =>
    [(dst, .gpr width)]
  | .armRegShift dst _ _ _ _ _ | .cmpyW128Sat dst _ _ _ _ _ _ _ _ _ _ => [(dst, .gpr .w32)]
  | .armDpRegShift _ dst _ _ _ _ _ => dst.toList.map (·, .gpr .w32)
  | .crc32C dst _ _ _ => [(dst, .gpr .w64)]
  | .mul _ dstLo dstHi _ _ width _ =>
    if width = .w8 then [(dstLo, .gpr .w16)]
    else (dstLo, .gpr width) :: dstHi.toList.map (·, .gpr width)
  | .clMul dst dstHi _ _ elemBits lanes _ =>
    let width : OpWidth := if elemBits = 64 ∧ lanes = 1 then .w64 else .w32
    (dst, .gpr width) :: dstHi.toList.map (·, .gpr width)
  | .div signed quot rem src1 src2 width _ =>
    match quotient env i signed src1 src2 width with
    | none => []
    | some _ =>
      if env.arch == .x86 && width = .w8 then [(.rax, .gpr .w16)]
      else (quot, .gpr width) :: rem.toList.map (·, .gpr width)
  | .incDec _ dst _ width _ | .mov dst _ width | .select dst _ _ _ width | .cwd dst _ width
  | .x86Lea dst _ width | .setCC dst _ width => [(dst, .part width)]
  | .extend _ dst _ _ toWidth => [(dst, .part toWidth)]
  | .cmove dst _ cond width =>
    if FlagImage.evalCondition i.flags.bit cond then [(dst, .part width)] else []
  | .bfx dst _ _ _ _ _ | .bfi dst _ _ _ _ _ | .truncate dst _ _ _ | .lea dst _ | .ioIn dst _ _
  | .readFlags dst | .testCondition dst _ => [(dst, .raw)]
  | .xchg reg1 reg2 width => [(reg1, .part width), (reg2, .part width)]
  | .x86Xadd dst src width _ =>
    [(src.vreg, gprOperandMode src width), (dst.vreg, gprOperandMode dst width)]
  | .x86Cmpxchg dst _ width _ =>
    if exchanges i dst width then [(dst.vreg, gprOperandMode dst width)]
    else [(.rax, .part width)]
  | .load dst _ width ext => [(dst, loadMode width ext)]
  | .predLoad dst cond _ width ext =>
    if (i.read cond).bit 0 then [(dst, loadMode width ext)] else []
  | .loadPair dst1 dst2 _ _ => [(dst1, .raw), (dst2, .raw)]
  | .other o =>
    match (o.eval env i).2 with
    | .error _ => []
    | .ok eff => eff.writes.map RegWrite.target
  | _ => []

/-- The operations of the integer core. -/
def isInteger : OpKind μ → Bool
  | .other _ => false
  | _ => true

/-- Registers that an operation may write although `dests` does not list them: the
accumulator for an 8-bit x86 division, the user status register for saturation. -/
def hiddenDests (env : Env) : OpKind μ → List VReg
  | .div _ _ _ _ _ .w8 _ => if env.arch == .x86 then [.rax] else []
  | .satN _ _ _ _ true _ | .cmpyW128Sat .. | .satOrigShl .. => [.usr]
  | .other o => o.written
  | _ => []

end OpKind

section Writes

variable [SmirMemory μ] {env : Env} {op : SmirOp μ} {i : Inputs μ} {eff : Effect}

open Interpret

theorem target_stickyOverflow (overflow : Bool) :
    (stickyOverflow overflow).map RegWrite.target = [] ∨
      (stickyOverflow overflow).map RegWrite.target = [(.usr, .setBit0)] := by
  cases overflow
  · exact Or.inl rfl
  · exact Or.inr rfl

variable {width : MemWidth}

theorem target_load {mem : μ} {dst : VReg} {addr : Word} {ext : SignExtend}
    (h : (load mem dst addr width ext).2 = .ok eff) :
    eff.writes.map RegWrite.target = [(dst, OpKind.loadMode width ext)] := by
  rw [load] at h
  rcases hl : loadMemory mem addr width ext with ⟨mem', e | val⟩
  · rw [hl] at h
    cases h
  · rw [hl] at h
    obtain rfl := Except.ok.inj h
    cases ext <;> rfl

theorem target_loadPair {mem : μ} {dst1 dst2 : VReg} {addr : Word}
    (h : (loadPair mem dst1 dst2 addr width).2 = .ok eff) :
    eff.writes.map RegWrite.target = [(dst1, .raw), (dst2, .raw)] := by
  rw [loadPair] at h
  rcases hl : loadMemory mem addr width .zero with ⟨mem', e | val⟩
  · rw [hl] at h
    cases h
  · simp only [hl] at h
    rcases hl' : loadMemory mem' (addr + BitVec.ofNat 64 width.bytes) width .zero with
      ⟨mem'', e | val'⟩
    · rw [hl'] at h
      cases h
    · rw [hl'] at h
      obtain rfl := Except.ok.inj h
      rfl

theorem writes_store {mem : μ} {addr value : Word} (h : (store mem addr value width).2 = .ok eff) :
    eff.writes = [] := by
  rw [store] at h
  rcases hs : storeMemory mem addr value width with ⟨mem', e | _⟩
  · rw [hs] at h
    cases h
  · rw [hs] at h
    obtain rfl := Except.ok.inj h
    rfl

theorem writes_storePair {mem : μ} {addr val1 val2 : Word}
    (h : (storePair mem addr val1 val2 width).2 = .ok eff) : eff.writes = [] := by
  rw [storePair] at h
  rcases hs : storeMemory mem addr val1 width with ⟨mem', e | _⟩
  · rw [hs] at h
    cases h
  · rw [hs] at h
    exact writes_store h

/-- What a completed operation writes. -/
theorem eval_targets (h : (eval env op i).2 = .ok eff) :
    ∃ sticky, eff.writes.map RegWrite.target = sticky ++ op.kind.targets env i ∧
      (sticky = [] ∨ sticky = [(.usr, .setBit0)] ∧ VReg.usr ∈ op.kind.hiddenDests env) := by
  obtain ⟨pc, kind, hint⟩ := op
  cases kind
  case load => exact ⟨[], target_load h, Or.inl rfl⟩
  case loadPair => exact ⟨[], target_loadPair h, Or.inl rfl⟩
  case store => exact ⟨[], by rw [writes_store h]; rfl, Or.inl rfl⟩
  case storePair => exact ⟨[], by rw [writes_storePair h]; rfl, Or.inl rfl⟩
  case predLoad dst cond addr width ext =>
    refine ⟨[], ?_, Or.inl rfl⟩
    simp only [eval] at h
    by_cases hcond : (i.read cond).bit 0 = true
    · rw [if_pos hcond] at h
      simpa [OpKind.targets, hcond] using target_load h
    · rw [if_neg hcond] at h
      obtain rfl := Except.ok.inj h
      simp [OpKind.targets, hcond]
  case predStore s cond addr width =>
    refine ⟨[], ?_, Or.inl rfl⟩
    simp only [eval] at h
    split at h
    · rw [writes_store h]
      rfl
    · obtain rfl := Except.ok.inj h
      rfl
  case other o =>
    refine ⟨[], ?_, Or.inl rfl⟩
    simp only [eval] at h
    simp [OpKind.targets, h]
  case setAC | x86Require =>
    refine ⟨[], ?_, Or.inl rfl⟩
    simp only [eval] at h
    split at h <;> (obtain rfl := Except.ok.inj h; rfl)
  all_goals
    obtain rfl := Except.ok.inj h
  case satN dst s satBits signed setOvf width =>
    cases setOvf with
    | false => exact ⟨[], by simp [satN, stickyOverflow]; rfl, Or.inl rfl⟩
    | true =>
      refine ⟨_, List.map_append, ?_⟩
      exact (target_stickyOverflow _).imp id fun h => ⟨h, List.mem_singleton_self _⟩
  case cmpyW128Sat | satOrigShl =>
    refine ⟨_, List.map_append, ?_⟩
    exact (target_stickyOverflow _).imp id fun h => ⟨h, List.mem_singleton_self _⟩
  case mul signed dstLo dstHi src1 src2 width flags =>
    refine ⟨[], ?_, Or.inl rfl⟩
    simp only [mul, OpKind.targets, List.nil_append]
    split
    · rfl
    · cases dstHi <;> rfl
  case clMul dst dstHi src1 src2 elemBits lanes acc =>
    refine ⟨[], ?_, Or.inl rfl⟩
    cases dstHi <;> rfl
  case div signed quot rem src1 src2 width flags =>
    refine ⟨[], ?_, Or.inl rfl⟩
    have hdef : quotRem signed (env.arch == .x86) width (i.read src1)
        (readSrcOperand i.read src2) (i.read .rax) (i.read .rdx) =
          OpKind.quotient env i signed src1 src2 width := rfl
    simp only [div, OpKind.targets, List.nil_append, hdef]
    cases OpKind.quotient env i signed src1 src2 width with
    | none => rfl
    | some qr =>
      simp only
      split
      · rfl
      · cases rem <;> rfl
  case incDec kind dst s width flags =>
    refine ⟨[], ?_, Or.inl rfl⟩
    cases kind <;> rfl
  case armDpRegShift kind dst rn rm rs sh flags =>
    refine ⟨[], ?_, Or.inl rfl⟩
    cases dst <;> rfl
  case cmove dst s cond width =>
    refine ⟨[], ?_, Or.inl rfl⟩
    simp only [cmove, OpKind.targets, List.nil_append]
    split <;> rfl
  case x86Cmpxchg dst s width flags =>
    refine ⟨[], ?_, Or.inl rfl⟩
    simp only [x86Cmpxchg, OpKind.targets, List.nil_append, OpKind.exchanges,
      decide_eq_true_eq]
    split <;> rfl
  case doubleShift | x86NddDoubleShift =>
    refine ⟨[], ?_, Or.inl rfl⟩
    simp only [doubleShift, OpKind.targets, List.nil_append]
    split <;> rfl
  all_goals exact ⟨[], rfl, Or.inl rfl⟩

end Writes

/-- Whether a write with this target looks at the value it replaces. -/
def targetMerges (t : VReg × WriteMode) : Bool := RegWrite.merges ⟨t.1, t.2, 0⟩

theorem RegWrite.merges_eq (w : RegWrite) : w.merges = targetMerges w.target := rfl

theorem VReg.isX86_of_isVirtual {r : VReg} (h : r.isVirtual = true) : r.isX86 = false := by
  cases r <;> first | rfl | cases h

namespace OpKind

variable {env : Env} {i : Inputs μ} {kind : OpKind μ}

/-- Modes that a fully defining operation never merges with: writes at the output width,
at 32 bits or more, or of an operation whose output width is unknown or a byte. -/
def fits (kind : OpKind μ) : WriteMode → Bool
  | .raw => true
  | .gpr width | .part width =>
    match kind.outWidth with
    | none => true
    | some out => out = width || out = .w8 || !width.isSub
  | .highByte | .setBit0 => false

theorem not_merges_of_fits {d : VReg} {mode : WriteMode} (hfull : kind.fullyDefines = true)
    (hd : d ∈ kind.dests) (hfits : kind.fits mode = true) : targetMerges (d, mode) = false := by
  have hmerge {width : OpWidth} (hfits : kind.fits (.gpr width) = true) :
      (d.isX86 && width.isSub) = false := by
    simp only [fullyDefines, Bool.or_eq_true, List.isEmpty_iff, List.all_eq_true] at hfull
    rcases hfull with (hnil | hvirt) | hwide
    · rw [hnil] at hd
      cases hd
    · rw [VReg.isX86_of_isVirtual (hvirt d hd), Bool.false_and]
    · cases hout : kind.outWidth with
      | none => rw [hout] at hwide; cases hwide
      | some out =>
        simp only [hout] at hwide
        simp only [fits, hout, Bool.or_eq_true, decide_eq_true_eq] at hfits
        rcases hfits with (rfl | rfl) | hsub
        · simp_all
        · cases hwide
        · simp_all
  cases mode with
  | raw => rfl
  | gpr width => exact hmerge hfits
  | part width => exact hmerge hfits
  | highByte | setBit0 => cases hfits

/-- Only listed and hidden destinations are targets. A fully defining operation merges into a
listed destination only if that is also a source; a hidden target is read. -/
def TargetSpec (env : Env) (kind : OpKind μ) (t : VReg × WriteMode) : Prop :=
  t.1 ∈ kind.dests ∧
      (kind.fullyDefines = true → targetMerges t = true → t.1 ∈ kind.sourceVregs) ∨
    t.1 ∈ kind.hiddenDests env ∧ (kind.isInteger = true → t.1 ∈ kind.reads)

theorem target_spec {t : VReg × WriteMode} (h : t ∈ kind.targets env i) :
    kind.TargetSpec env t := by
  have plain {d : VReg} {mode : WriteMode} (ht : t = (d, mode)) (hd : d ∈ kind.dests)
      (hfits : kind.fits mode = true) : kind.TargetSpec env t := by
    refine Or.inl ⟨by rwa [ht], fun hfull hmerge => ?_⟩
    rw [ht, not_merges_of_fits hfull hd hfits] at hmerge
    cases hmerge
  cases kind
  case other o =>
    right
    simp only [targets] at h
    cases hev : (o.eval env i).2 with
    | error e => simp [hev] at h
    | ok eff =>
      simp only [hev, List.mem_map] at h
      obtain ⟨w, hw, rfl⟩ := h
      exact ⟨o.eval_written env i eff hev w hw, fun h => by cases h⟩
  case load dst addr width ext =>
    refine plain (List.mem_singleton.mp h) (List.mem_singleton_self _) ?_
    cases ext <;> rfl
  case predLoad dst cond addr width ext =>
    simp only [targets] at h
    split at h
    · refine plain (List.mem_singleton.mp h) (List.mem_singleton_self _) ?_
      cases ext <;> rfl
    · cases h
  case loadPair dst1 dst2 addr width =>
    simp only [targets, List.mem_cons, List.not_mem_nil, or_false] at h
    rcases h with h | h
    · exact plain h (by simp [dests]) rfl
    · exact plain h (by simp [dests]) rfl
  case xchg reg1 reg2 width =>
    simp only [targets, List.mem_cons, List.not_mem_nil, or_false] at h
    rcases h with h | h
    · exact plain h (by simp [dests]) rfl
    · exact plain h (by simp [dests]) rfl
  case mul signed dstLo dstHi src1 src2 width flags =>
    simp only [targets] at h
    split at h
    · next hw =>
      exact plain (List.mem_singleton.mp h) (by simp [dests]) (by simp [fits, outWidth, hw])
    · simp only [List.mem_cons, List.mem_map, Option.mem_toList] at h
      rcases h with h | ⟨hi, hhi, h⟩
      · exact plain h (by simp [dests]) (by simp [fits, outWidth])
      · exact plain h.symm (by simp [dests, hhi]) (by simp [fits, outWidth])
  case clMul dst dstHi src1 src2 elemBits lanes acc =>
    simp only [targets, List.mem_cons, List.mem_map, Option.mem_toList] at h
    rcases h with h | ⟨hi, hhi, h⟩
    · exact plain h (by simp [dests]) rfl
    · exact plain h.symm (by simp [dests, hhi]) rfl
  case div signed quot rem src1 src2 width flags =>
    simp only [targets] at h
    split at h
    · cases h
    · split at h
      · next hw =>
        simp only [Bool.and_eq_true, decide_eq_true_eq] at hw
        obtain ⟨harch, rfl⟩ := hw
        right
        rw [List.mem_singleton.mp h]
        exact ⟨by simp [hiddenDests, harch], fun _ => by simp [reads]⟩
      · simp only [List.mem_cons, List.mem_map, Option.mem_toList] at h
        rcases h with h | ⟨r, hr, h⟩
        · exact plain h (by simp [dests]) (by simp [fits, outWidth])
        · exact plain h.symm (by simp [dests, hr]) (by simp [fits, outWidth])
  case armDpRegShift kind dst rn rm rs sh flags =>
    simp only [targets, List.mem_map, Option.mem_toList] at h
    obtain ⟨d, hd, h⟩ := h
    exact plain h.symm (by simp [dests, hd]) rfl
  case cmove dst s cond width =>
    simp only [targets] at h
    split at h
    · exact plain (List.mem_singleton.mp h) (List.mem_singleton_self _)
        (by simp [fits, outWidth])
    · cases h
  case x86Xadd dst s width flags =>
    simp only [targets, List.mem_cons, List.not_mem_nil, or_false] at h
    left
    rcases h with rfl | rfl <;> exact ⟨by simp [dests], fun _ _ => by simp [sourceVregs]⟩
  case x86Cmpxchg dst s width flags =>
    simp only [targets] at h
    left
    split at h
    · obtain rfl := List.mem_singleton.mp h
      exact ⟨by simp [dests], fun _ _ => by simp [sourceVregs]⟩
    · obtain rfl := List.mem_singleton.mp h
      exact ⟨by simp [dests], fun _ _ => by simp [sourceVregs]⟩
  all_goals first
    | exact absurd h List.not_mem_nil
    | exact plain (List.mem_singleton.mp h) (List.mem_singleton_self _)
        (by simp [fits, outWidth, OpWidth.isSub])

end OpKind

/-- What the writes of a completed operation can be. -/
theorem write_spec [SmirMemory μ] {env : Env} {op : SmirOp μ} {i : Inputs μ} {eff : Effect}
    (h : (eval env op i).2 = .ok eff) {w : RegWrite} (hw : w ∈ eff.writes) :
    op.kind.TargetSpec env w.target ∨
      w.target = (.usr, .setBit0) ∧ VReg.usr ∈ op.kind.hiddenDests env := by
  obtain ⟨sticky, hmap, hsticky⟩ := eval_targets h
  have hmem : w.target ∈ sticky ++ op.kind.targets env i := hmap ▸ List.mem_map_of_mem hw
  rcases List.mem_append.mp hmem with hs | ht
  · rcases hsticky with rfl | ⟨rfl, husr⟩
    · cases hs
    · exact Or.inr ⟨List.mem_singleton.mp hs, husr⟩
  · exact Or.inl (OpKind.target_spec ht)

/-- Whether an operation leaves alone the cell in which a name is stored. -/
def OpKind.spares (env : Env) (kind : OpKind μ) (r : VReg) : Bool :=
  (kind.dests ++ kind.hiddenDests env).all fun d => !decide (Shares env.arch r d)

theorem read_exec_of_spares [SmirMemory μ] {env : Env} {op : SmirOp μ} {m m' : Machine μ}
    {r : VReg} (h : op.kind.spares env r = true) (hexec : exec env op m = .next m') :
    m'.read env r = m.read env r := by
  have hns (d : VReg) (hd : d ∈ op.kind.dests ∨ d ∈ op.kind.hiddenDests env) :
      ¬ Shares env.arch r d := by
    simpa using List.all_eq_true.mp h d (List.mem_append.mpr hd)
  have hstate : (exec env op m).state = m' := by rw [hexec]; rfl
  cases hev : (eval env op (m.inputs env)).2 with
  | error e =>
    rw [← hstate, exec_state_of_error hev]
    rfl
  | ok eff =>
    rw [← hstate, exec_state_of_ok hev]
    refine RegFile.read_applyWrites_of_not_shares fun w hw => hns w.dst ?_
    rcases write_spec hev hw with (⟨hd, -⟩ | ⟨hd, -⟩) | ⟨hw, husr⟩
    · exact Or.inl hd
    · exact Or.inr hd
    · rw [show w.dst = .usr from congrArg Prod.fst hw]
      exact Or.inr husr

end Rax.Smir

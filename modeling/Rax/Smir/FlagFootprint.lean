import Rax.Smir.Interpret.Exec

/-!
# Which flags an operation writes and drops

Read off the interpreter, operation by operation. `flagsDefined` are the flags that get a
value of their own. `flagsDropped` are the flags that fall back to the settled copy because
the operation replaces the pending record without settling it and produces no value for
them. Counts matter: a shift by zero touches no flag, and a rotate defines the overflow flag
only for a count of one.
-/

namespace Rax.Smir

variable {μ : Type}

/-- The flags a record produces. -/
def LazyFlags.covers (lazy : LazyFlags) : FlagSet :=
  match lazy.op with
  | .add | .sub | .adc | .sbb | .neg | .logic => FlagSet.allX86
  | .inc | .dec => FlagSet.allX86.erase .cf
  | .andn => FlagSet.nzcv
  | .shl | .shr | .sar =>
    if lazy.right = 0 then {.zf, .sf, .of, .pf} else FlagSet.allX86.erase .af
  | .rotate | .ror | .rcl | .rcr => if lazy.right = 1 then {.cf, .of} else {.cf}
  | .shld | .shrd | .mul | .imul => FlagSet.allX86.erase .af
  | .bt => {.cf}
  | .bextr => {.cf, .zf, .of}
  | .bzhi | .blsr | .blsmsk | .blsi => FlagSet.nzcv
  | .none => {.zf, .sf, .pf}

theorem LazyFlags.produces_isSome (lazy : LazyFlags) (f : Flag) :
    (lazy.produces f).isSome = true ↔ f ∈ lazy.covers := by
  cases hop : lazy.op <;> cases f <;>
    simp [produces, covers, hop, materializeCf, materializeZf, materializeSf, materializeOf,
      materializePf, materializeAf, FlagSet.nzcv] <;>
    split <;> simp_all

namespace FlagAct

/-- The flags an act gives a value. -/
def defines : FlagAct → FlagSet
  | keep => ∅
  | setLazy lazy | settleLazy lazy => lazy.covers
  | withUpdate lazy update => update.asSet ∩ lazy.covers
  | assign value _ _ => FlagSet.allX86.filter fun f => (value f).isSome

/-- The flags an act sends back to the settled copy. -/
def drops : FlagAct → FlagSet
  | setLazy lazy | withUpdate lazy .all => FlagSet.allX86 \ lazy.covers
  | _ => ∅

theorem written_isSome (act : FlagAct) (f : Flag) :
    (act.written f).isSome = true ↔ f ∈ act.defines := by
  cases act with
  | keep => simp [written, defines]
  | setLazy lazy | settleLazy lazy => simp [written, defines, lazy.produces_isSome]
  | withUpdate lazy update =>
    by_cases h : f ∈ update.asSet <;> simp [written, defines, h, lazy.produces_isSome]
  | assign value df ac => simp [written, defines]

theorem forgets_iff (act : FlagAct) (f : Flag) : act.forgets f = true ↔ f ∈ act.drops := by
  have hnone (lazy : LazyFlags) :
      (lazy.produces f).isNone = true ↔ f ∈ FlagSet.allX86 \ lazy.covers := by
    rw [Finset.mem_sdiff, ← lazy.produces_isSome]
    cases lazy.produces f <;> simp
  cases act with
  | withUpdate lazy update =>
    cases update with
    | all => exact hnone lazy
    | _ => simp [forgets, drops]
  | setLazy lazy => exact hnone lazy
  | _ => simp [forgets, drops]

end FlagAct

/-- What an evaluated operation does to the flags. -/
def Evaluated.flagAct (out : Evaluated μ) : FlagAct :=
  match out.2 with
  | .error _ => .keep
  | .ok eff => eff.flags

namespace OpKind

/-- The count of a shift, as `Shl`, `Shr` and `Sar` mask it. -/
def shiftCount (env : Env) (i : Inputs μ) (amount : SrcOperand) (width : OpWidth) : Word :=
  readSrcOperand i.read amount &&& scalarShiftCountMask env.sourceArch width

/-- The count of a double shift or a rotate. -/
def rotateCount (i : Inputs μ) (amount : SrcOperand) (width : OpWidth) : Word :=
  readSrcOperand i.read amount &&& rotateCountMask width

/-- Whether a double shift changes anything. -/
def doubleShiftActs (i : Inputs μ) (amount : SrcOperand) (width : OpWidth) : Bool :=
  let n := (rotateCount i amount width).toNat
  n != 0 && decide (n ≤ width.bits)

/-- Flags of a rotate: carry, and overflow for a count of one. -/
def rotateFlags (count : Word) : FlagSet := if count = 1 then {.cf, .of} else {.cf}

def flagsDefined (env : Env) (i : Inputs μ) : OpKind μ → FlagSet
  | .arith _ _ _ _ _ flags | .neg _ _ _ flags | .x86Xadd _ _ _ flags
  | .x86Cmpxchg _ _ _ flags => if flags.updatesAny then FlagSet.allX86 else ∅
  | .incDec _ _ _ _ flags => if flags.updatesAny then FlagSet.allX86.erase .cf else ∅
  | .cmp .. | .test .. | .writeFlags _ | .x86XTest => FlagSet.allX86
  | .mul _ _ _ _ _ _ flags => flags.asSet.erase .af
  | .logic .andNot _ _ _ _ (.specific set) => (set.erase .pf).erase .af
  | .logic _ _ _ _ _ flags => flags.asSet
  | .shift _ _ _ amount width flags =>
    if shiftCount env i amount width = 0 then ∅ else flags.asSet.erase .af
  | .doubleShift _ _ _ amount width flags | .x86NddDoubleShift _ _ _ amount width _ flags =>
    if doubleShiftActs i amount width && flags.updatesAny then FlagSet.allX86.erase .af else ∅
  | .rotate _ _ _ amount width flags =>
    let count := rotateCount i amount width
    if count = 0 ∨ flags.updatesAny = false then ∅ else rotateFlags count
  | .rotateCarry _ _ _ amount width flags =>
    let count := rotateCount i amount width
    if count.toNat % (width.bits + 1) ≠ 0 ∧ flags.updatesAny then rotateFlags count else ∅
  | .armRegShift _ _ _ _ _ flags => flags.asSet ∩ {.cf, .zf, .sf}
  | .armDpRegShift kind _ _ _ _ _ flags =>
    flags.asSet ∩ if kind.isLogical then {.cf, .zf, .sf} else FlagSet.nzcv
  | .bt .. | .bitMod .. | .setCF _ | .cmcCF => {.cf}
  | .scan _ _ _ _ flags => if flags.updatesAny then {.zf} else ∅
  | .bextr _ _ _ _ flags => if flags.updatesAny then {.cf, .zf, .of} else ∅
  | .bzhi _ _ _ _ flags | .x86Bls _ _ _ _ flags | .x86Tbm _ _ _ _ flags =>
    if flags.updatesAny then FlagSet.nzcv else ∅
  | .x86Adx _ _ _ _ kind flags =>
    if flags.updatesAny then
      match kind with
      | .adcx => {.cf}
      | .adox => {.of}
    else ∅
  | .x86Count _ _ _ .popcnt flags => flags.asSet
  | .x86Count _ _ _ _ flags => flags.asSet ∩ {.cf, .zf}
  | .other o => (o.eval env i).flagAct.defines
  | _ => ∅

def flagsDropped (env : Env) (i : Inputs μ) : OpKind μ → FlagSet
  | .incDec _ _ _ _ flags => if flags.updatesAny then {.cf} else ∅
  | .mul _ _ _ _ _ _ .all => {.af}
  | .shift _ _ _ amount width .all => if shiftCount env i amount width = 0 then ∅ else {.af}
  | .doubleShift _ _ _ amount width flags | .x86NddDoubleShift _ _ _ amount width _ flags =>
    if doubleShiftActs i amount width && flags.updatesAny then {.af} else ∅
  | .bt .. | .bitMod .. => FlagSet.allX86.erase .cf
  | .other o => (o.eval env i).flagAct.drops
  | _ => ∅

end OpKind

section Memory

variable [SmirMemory μ]

theorem flagAct_load (mem : μ) (dst : VReg) (addr : Word) (width : MemWidth)
    (extend : SignExtend) : (Interpret.load mem dst addr width extend).flagAct = .keep := by
  rw [Interpret.load]
  rcases loadMemory mem addr width extend with ⟨mem', _ | val⟩ <;> rfl

theorem flagAct_store (mem : μ) (addr value : Word) (width : MemWidth) :
    (Interpret.store mem addr value width).flagAct = .keep := by
  rw [Interpret.store]
  rcases storeMemory mem addr value width with ⟨mem', _ | val⟩ <;> rfl

theorem flagAct_loadPair (mem : μ) (dst1 dst2 : VReg) (addr : Word) (width : MemWidth) :
    (Interpret.loadPair mem dst1 dst2 addr width).flagAct = .keep := by
  rw [Interpret.loadPair]
  rcases loadMemory mem addr width .zero with ⟨mem', _ | val⟩
  · rfl
  · simp only
    rcases loadMemory mem' (addr + BitVec.ofNat 64 width.bytes) width .zero with ⟨_, _ | _⟩ <;>
      rfl

theorem flagAct_storePair (mem : μ) (addr val1 val2 : Word) (width : MemWidth) :
    (Interpret.storePair mem addr val1 val2 width).flagAct = .keep := by
  rw [Interpret.storePair]
  rcases storeMemory mem addr val1 width with ⟨mem', _ | _⟩
  · rfl
  · exact flagAct_store mem' _ val2 width

end Memory

section Families

open Interpret

/-- A record installed under a request defines the requested part of what it covers. -/
theorem FlagAct.footprint_withUpdate (lazy : LazyFlags) (flags : FlagUpdate) :
    (withUpdate lazy flags).defines = flags.asSet ∩ lazy.covers ∧
      (withUpdate lazy flags).drops = if flags = .all then FlagSet.allX86 \ lazy.covers else ∅ := by
  cases flags <;> exact ⟨rfl, rfl⟩

theorem FlagSet.inter_erase_af (set : FlagSet) : set ∩ allX86.erase .af = set.erase .af := by
  ext f
  simp [and_comm]

theorem footprint_shift (kind : ShiftKind) (sourceArch : SourceArch) (dst : VReg)
    (src amount : Word) (width : OpWidth) (flags : FlagUpdate) :
    let zero := amount &&& scalarShiftCountMask sourceArch width = 0
    let act := (shift kind sourceArch dst src amount width flags).flags
    act.defines = (if zero then ∅ else flags.asSet.erase .af) ∧
      act.drops = if zero then ∅ else if flags = .all then {.af} else ∅ := by
  intro zero act
  by_cases hzero : zero
  · have hact : act = .keep := if_pos hzero
    rw [hact, if_pos hzero, if_pos hzero]
    exact ⟨rfl, rfl⟩
  · obtain ⟨lazy, hact, hcovers⟩ :
        ∃ lazy, act = .withUpdate lazy flags ∧ lazy.covers = FlagSet.allX86.erase .af := by
      refine ⟨_, if_neg hzero, ?_⟩
      cases kind <;> exact if_neg hzero
    rw [hact, if_neg hzero, if_neg hzero, (FlagAct.footprint_withUpdate _ _).1,
      (FlagAct.footprint_withUpdate _ _).2, hcovers, FlagSet.inter_erase_af]
    exact ⟨rfl, rfl⟩

theorem footprint_doubleShift (left : Bool) (dst : VReg) (base fill amount : Word)
    (width : OpWidth) (flags : FlagUpdate) :
    let n := (amount &&& rotateCountMask width).toNat
    let acts := (n != 0 && decide (n ≤ width.bits)) && flags.updatesAny
    let act := (doubleShift left dst base fill amount width flags).flags
    act.defines = (if acts then FlagSet.allX86.erase .af else ∅) ∧
      act.drops = if acts then {.af} else ∅ := by
  intro n acts act
  by_cases hn : n ≠ 0 ∧ n ≤ width.bits
  · have heff : act = ((doubleShift left dst base fill amount width flags)).flags := rfl
    rw [doubleShift, if_pos hn] at heff
    have hacts : acts = flags.updatesAny := by simp [acts, hn.1, hn.2]
    rw [heff, hacts]
    cases flags <;> cases left <;> exact ⟨rfl, rfl⟩
  · have heff : act = ((doubleShift left dst base fill amount width flags)).flags := rfl
    rw [doubleShift, if_neg hn] at heff
    have hacts : acts = false := by
      simp only [ne_eq, not_and, not_le] at hn
      simp only [acts, Bool.and_eq_false_iff, bne_eq_false_iff_eq, decide_eq_false_iff_not]
      omega
    rw [heff, hacts]
    exact ⟨rfl, rfl⟩

theorem footprint_rotate (kind : RotateKind) (dst : VReg) (src amount : Word)
    (width : OpWidth) (flags : FlagUpdate) :
    let count := amount &&& rotateCountMask width
    let act := (rotate kind dst src amount width flags).flags
    act.defines = (if count = 0 ∨ flags.updatesAny = false then ∅
      else OpKind.rotateFlags count) ∧ act.drops = ∅ := by
  intro count act
  by_cases hzero : count = 0
  · have hact : act = .keep := if_pos hzero
    rw [hact, if_pos (Or.inl hzero)]
    exact ⟨rfl, rfl⟩
  · have hact : act = _ := if_neg hzero
    rw [hact]
    cases flags with
    | none => exact ⟨(if_pos (Or.inr rfl)).symm, rfl⟩
    | all | specific set =>
      have hguard (u : FlagUpdate) (hu : u.updatesAny = true) :
          ¬ (count = 0 ∨ u.updatesAny = false) := by
        rintro (h | h)
        · exact hzero h
        · rw [hu] at h; cases h
      cases kind <;> exact ⟨(if_neg (hguard _ rfl)).symm, rfl⟩

theorem footprint_rotateCarry (kind : RotateCarryKind) (dst : VReg) (src amount : Word)
    (carry : Bool) (width : OpWidth) (flags : FlagUpdate) :
    let count := amount &&& rotateCountMask width
    let act := (rotateCarry kind dst src amount carry width flags).flags
    act.defines = (if count.toNat % (width.bits + 1) ≠ 0 ∧ flags.updatesAny then
      OpKind.rotateFlags count else ∅) ∧ act.drops = ∅ := by
  intro count act
  by_cases hacts : count.toNat % (width.bits + 1) ≠ 0 ∧ flags.updatesAny
  · have hact : act = _ := if_pos hacts
    rw [hact, if_pos hacts]
    cases kind <;> exact ⟨rfl, rfl⟩
  · have hact : act = .settle := if_neg hacts
    rw [hact, if_neg hacts]
    exact ⟨rfl, rfl⟩

theorem armDpResult_snd_isSome (kind : ArmDpRegShiftKind) (lhs shifted : BitVec 32)
    (carryIn : Bool) : (armDpResult kind lhs shifted carryIn).2.isSome = !kind.isLogical := by
  cases kind <;> rfl

end Families

open Interpret in
/-- The tables say exactly what evaluation does to the flags. -/
theorem eval_flag_footprint [SmirMemory μ] (env : Env) (op : SmirOp μ) (i : Inputs μ) :
    (eval env op i).flagAct.defines = op.kind.flagsDefined env i ∧
      (eval env op i).flagAct.drops = op.kind.flagsDropped env i := by
  obtain ⟨pc, kind, hint⟩ := op
  have keep {out : Evaluated μ} (h : out.flagAct = .keep) :
      out.flagAct.defines = ∅ ∧ out.flagAct.drops = ∅ := by rw [h]; exact ⟨rfl, rfl⟩
  cases kind
  case other o => exact ⟨rfl, rfl⟩
  case load => exact keep (flagAct_load _ _ _ _ _)
  case store => exact keep (flagAct_store _ _ _ _)
  case loadPair => exact keep (flagAct_loadPair _ _ _ _ _)
  case storePair => exact keep (flagAct_storePair _ _ _ _ _)
  case predLoad =>
    simp only [eval]
    split
    · exact keep (flagAct_load _ _ _ _ _)
    · exact ⟨rfl, rfl⟩
  case predStore =>
    simp only [eval]
    split
    · exact keep (flagAct_store _ _ _ _)
    · exact ⟨rfl, rfl⟩
  case arith kind _ _ _ _ flags => cases flags <;> cases kind <;> exact ⟨rfl, rfl⟩
  case incDec kind _ _ _ flags => cases flags <;> cases kind <;> exact ⟨rfl, rfl⟩
  case neg flags | x86Xadd flags | x86Cmpxchg flags | scan flags | bextr flags | bzhi flags
      | x86Tbm flags => cases flags <;> exact ⟨rfl, rfl⟩
  case x86Bls kind flags => cases flags <;> cases kind <;> exact ⟨rfl, rfl⟩
  case x86Adx kind flags => cases flags <;> cases kind <;> exact ⟨rfl, rfl⟩
  case logic kind _ _ _ _ flags =>
    cases flags with
    | none | all => cases kind <;> exact ⟨rfl, rfl⟩
    | specific set =>
      refine ⟨?_, by cases kind <;> rfl⟩
      ext f
      cases kind <;> cases f <;>
        simp [eval, Inputs.done, Evaluated.flagAct, logic, FlagAct.defines, FlagUpdate.asSet,
          OpKind.flagsDefined, LazyFlags.covers, LazyFlags.andn, LazyFlags.logic, FlagSet.nzcv]
  case x86Count kind flags =>
    simp only [eval, Inputs.done, Evaluated.flagAct, x86Count]
    by_cases hnone : flags.asSet = ∅
    · rw [if_pos hnone]
      cases kind <;> simp only [OpKind.flagsDefined, hnone] <;> exact ⟨rfl, rfl⟩
    · rw [if_neg hnone]
      refine ⟨?_, rfl⟩
      ext f
      by_cases hf : f ∈ flags.asSet <;> cases kind <;> cases f <;>
        simp [FlagAct.defines, OpKind.flagsDefined, hf]
  case shift kind dst src amount width flags =>
    have h := footprint_shift kind env.sourceArch dst (i.read src) (readSrcOperand i.read amount)
      width flags
    refine ⟨h.1, h.2.trans ?_⟩
    by_cases hzero : OpKind.shiftCount env i amount width = 0
    · refine (if_pos hzero).trans ?_
      cases flags with
      | all => exact (if_pos hzero).symm
      | none | specific set => rfl
    · refine (if_neg hzero).trans ?_
      cases flags with
      | all => exact (if_neg hzero).symm
      | none | specific set => rfl
  case doubleShift left dst src amount width flags =>
    exact footprint_doubleShift left dst _ _ _ width flags
  case x86NddDoubleShift dst base fill amount width left flags =>
    exact footprint_doubleShift left dst _ _ _ width flags
  case rotate kind dst src amount width flags =>
    exact footprint_rotate kind dst _ _ width flags
  case rotateCarry kind dst src amount width flags =>
    exact footprint_rotateCarry kind dst _ _ _ width flags
  case div signed quot rem src1 src2 width flags =>
    simp only [eval, Inputs.done, div]
    split
    · exact ⟨rfl, rfl⟩
    · split <;> exact ⟨rfl, rfl⟩
  case mul signed _ _ _ _ _ flags => 
    cases flags with
    | none | all => cases signed <;> exact ⟨rfl, rfl⟩
    | specific set =>
      refine ⟨?_, rfl⟩
      ext f
      cases signed <;> cases f <;>
        simp [eval, Inputs.done, Evaluated.flagAct, mul, FlagAct.defines, FlagUpdate.asSet,
          OpKind.flagsDefined, LazyFlags.covers]
  case x86Require | setAC =>
    simp only [eval, Inputs.done]
    split <;> exact ⟨rfl, rfl⟩
  case armRegShift flags =>
    refine ⟨?_, rfl⟩
    ext f
    by_cases hf : f ∈ flags.asSet <;> cases f <;>
      simp [eval, Inputs.done, Evaluated.flagAct, armRegShift, FlagAct.defines,
        OpKind.flagsDefined, hf]
  case armDpRegShift kind _ _ _ _ _ flags =>
    refine ⟨?_, rfl⟩
    ext f
    by_cases hf : f ∈ flags.asSet <;> cases hlog : kind.isLogical <;> cases f <;>
      simp [eval, Inputs.done, Evaluated.flagAct, armDpRegShift, armDpResult_snd_isSome,
        FlagAct.defines, OpKind.flagsDefined, FlagSet.nzcv, hf, hlog]
  all_goals exact ⟨rfl, rfl⟩

end Rax.Smir

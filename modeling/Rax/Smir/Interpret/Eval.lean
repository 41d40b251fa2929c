import Rax.Smir.Interpret.Bit

/-!
# Evaluation of operations

`eval` is the operation dispatch of the interpreter (`execute_op` and the `execute_op_*`
chain): from what the operation reads it computes the memory afterwards and an effect.
`OpKind.reads` and `OpKind.flagReads` say what it reads, and `eval_congr` that it reads
nothing else.
-/

namespace Rax.Smir

variable {μ : Type}

/-- Evaluation that does not touch memory. -/
def Inputs.done (i : Inputs μ) (eff : Effect) : Evaluated μ := (i.mem, .ok eff)

namespace Interpret

/-- Whether an x86 context provides a feature. `flags::bits::VM` is bit 17. -/
def featureEnabled (env : Env) (rflags : Word) (feature : X86Feature) : Bool :=
  let sys := env.x86
  let protectedLong := sys.cr0 &&& 1 != 0 && sys.csL && !rflags.bit 17
  env.arch == .x86 &&
    match feature with
    | .apx => sys.apxEnabled
    | .sse4a => sys.sse4a && sys.cr0 &&& 0xC == 0 && sys.cr4.bit 9
    | .tbm => sys.tbm && protectedLong
    | .xop => sys.xop && protectedLong && sys.cr4.bit 18 && sys.xcr0 &&& 6 == 6 && !sys.cr0.bit 3

/-- The write of a load: zero-extending loads merge like moves, sign-extending ones do not. -/
def loadWrite (dst : VReg) (width : MemWidth) (extend : SignExtend) (val : Word) : RegWrite :=
  match extend with
  | .zero => ⟨dst, .part (width.toOpWidth.getD .w64), val⟩
  | .sign => ⟨dst, .raw, val⟩

variable [SmirMemory μ]

def load (mem : μ) (dst : VReg) (addr : Word) (width : MemWidth) (extend : SignExtend) :
    Evaluated μ :=
  match loadMemory mem addr width extend with
  | (mem, .error e) => (mem, .error e)
  | (mem, .ok val) => (mem, .ok { writes := [loadWrite dst width extend val] })

def store (mem : μ) (addr value : Word) (width : MemWidth) : Evaluated μ :=
  match storeMemory mem addr value width with
  | (mem, .error e) => (mem, .error e)
  | (mem, .ok ()) => (mem, .ok {})

def loadPair (mem : μ) (dst1 dst2 : VReg) (addr : Word) (width : MemWidth) : Evaluated μ :=
  match loadMemory mem addr width .zero with
  | (mem, .error e) => (mem, .error e)
  | (mem, .ok val1) =>
    match loadMemory mem (addr + BitVec.ofNat 64 width.bytes) width .zero with
    | (mem, .error e) => (mem, .error e)
    | (mem, .ok val2) => (mem, .ok { writes := [⟨dst1, .raw, val1⟩, ⟨dst2, .raw, val2⟩] })

def storePair (mem : μ) (addr val1 val2 : Word) (width : MemWidth) : Evaluated μ :=
  match storeMemory mem addr val1 width with
  | (mem, .error e) => (mem, .error e)
  | (mem, .ok ()) => store mem (addr + BitVec.ofNat 64 width.bytes) val2 width

end Interpret

open Interpret in
/-- Evaluate one operation. -/
def eval [SmirMemory μ] (env : Env) (op : SmirOp μ) (i : Inputs μ) : Evaluated μ :=
  let rd := i.read
  let src := readSrcOperand i.read
  let x86 := env.arch == .x86
  match op.kind with
  | .arith kind dst src1 src2 width flags =>
    i.done (arith kind dst (rd src1) (src src2) (i.flags.bit .cf) width flags)
  | .neg dst s width flags => i.done (neg dst (rd s) width flags)
  | .incDec kind dst s width flags => i.done (incDec kind dst (rd s) width flags)
  | .cmp src1 src2 width => i.done (cmp (rd src1) (src src2) width)
  | .mul signed dstLo dstHi src1 src2 width flags =>
    i.done (mul signed dstLo dstHi (rd src1) (src src2) width flags)
  | .mulAcc sub dst acc src1 src2 width =>
    i.done (mulAcc sub dst (rd acc) (rd src1) (rd src2) width)
  | .div signed quot rem src1 src2 width _ =>
    i.done (div signed x86 quot rem (rd src1) (src src2) (rd .rax) (rd .rdx) width op.guestPc)
  | .logic kind dst src1 src2 width flags =>
    i.done (logic kind dst (rd src1) (src src2) width flags)
  | .not dst s width => i.done (not dst (rd s) width)
  | .test src1 src2 width => i.done (test (rd src1) (src src2) width)
  | .shift kind dst s amount width flags =>
    i.done (shift kind env.sourceArch dst (rd s) (src amount) width flags)
  | .doubleShift left dst s amount width flags =>
    i.done (doubleShift left dst (rd dst) (rd s) (src amount) width flags)
  | .x86NddDoubleShift dst base fill amount width left flags =>
    i.done (doubleShift left dst (rd base) (rd fill) (src amount) width flags)
  | .rotate kind dst s amount width flags =>
    i.done (rotate kind dst (rd s) (src amount) width flags)
  | .armRegShift dst s amount shift _ flags =>
    i.done (armRegShift dst (rd s) (src amount) shift (i.flags.bit .cf) flags)
  | .armDpRegShift kind dst rn rm rs shift flags =>
    i.done (armDpRegShift kind dst ((rn.map rd).getD 0) (rd rm) (rd rs) shift
      (i.flags.bit .cf) flags)
  | .rotateCarry kind dst s amount width flags =>
    i.done (rotateCarry kind dst (rd s) (src amount) (i.flags.bit .cf) width flags)
  | .bidirShift dst s amount kind width =>
    i.done (bidirShift dst (src s) (src amount) kind width)
  | .satN dst s satBits signed setOvf width =>
    i.done (satN dst (src s) satBits signed setOvf width)
  | .clMul dst dstHi src1 src2 elemBits lanes acc =>
    i.done (clMul dst dstHi (src src1) (src src2) (rd dst) ((dstHi.map rd).getD 0) elemBits
      lanes acc)
  | .crc32C dst crc data dataWidth => i.done (crc32C dst (rd crc) (rd data) dataWidth)
  | .cmpyW128Sat dst rssLo rssHi rttLo rttHi w0 w1 w2 w3 add rnd =>
    i.done (cmpyW128Sat dst (rd rssLo) (rd rssHi) (rd rttLo) (rd rttHi) w0 w1 w2 w3 add rnd)
  | .satOrigShl dst s amount right width =>
    i.done (satOrigShl dst (src s) (src amount) right width)
  | .bt s index width => i.done (bt (rd s) (src index) width)
  | .bitMod kind dst s index width => i.done (bitMod kind dst (rd s) (src index) width)
  | .scan kind dst s width flags => i.done (scan kind dst (rd s) width flags)
  | .bextr dst s control width flags => i.done (bextr dst (rd s) (rd control) width flags)
  | .bzhi dst s index width flags => i.done (bzhi dst (rd s) (rd index) width flags)
  | .x86Bls dst s width kind flags => i.done (x86Bls dst (rd s) width kind flags)
  | .x86Tbm dst s width kind flags => i.done (x86Tbm dst (rd s) width kind flags)
  | .x86Adx dst src1 src2 width kind flags =>
    i.done (x86Adx dst (rd src1) (rd src2) (i.flags.bit .cf) (i.flags.bit .of) width kind flags)
  | .pdep dst s mask width => i.done (pdep dst (rd s) (rd mask) width)
  | .pext dst s mask width => i.done (pext dst (rd s) (rd mask) width)
  | .bitCount kind dst s width => i.done (bitCount kind dst (rd s) width)
  | .x86Count dst s width kind flags => i.done (x86Count dst (rd s) width kind flags)
  | .bswap dst s width => i.done (bswap dst (rd s) width)
  | .rbit dst s width => i.done (rbit dst (rd s) width)
  | .bfx dst s lsb widthBits sext opWidth => i.done (bfx dst (rd s) lsb widthBits sext opWidth)
  | .bfi dst dstIn s lsb widthBits opWidth =>
    i.done (bfi dst (rd dstIn) (rd s) lsb widthBits opWidth)
  | .mov dst s width => i.done (mov dst (src s) width)
  | .cmove dst s cond width =>
    i.done (cmove dst (rd s) (FlagImage.evalCondition i.flags.bit cond) width)
  | .select dst cond srcTrue srcFalse width =>
    i.done (select dst (rd cond) (rd srcTrue) (rd srcFalse) width)
  | .extend signed dst s fromWidth toWidth =>
    i.done (extend signed dst (rd s) op.legacyHighByte fromWidth toWidth)
  | .cwd dst s width => i.done (cwd dst (rd s) width)
  | .truncate dst s _ toWidth => i.done { writes := [⟨dst, .raw, rd s &&& toWidth.mask⟩] }
  | .lea dst addr => i.done { writes := [⟨dst, .raw, computeAddress env i addr⟩] }
  | .x86Lea dst addr width =>
    i.done { writes := [⟨dst, .part width, computeAddress env i addr⟩] }
  | .xchg reg1 reg2 width => i.done (xchg reg1 reg2 (rd reg1) (rd reg2) width)
  | .x86Xadd dst s width flags =>
    i.done (x86Xadd dst s (rd dst.vreg) (rd s.vreg) width flags)
  | .x86Cmpxchg dst s width flags =>
    i.done (x86Cmpxchg dst s (rd dst.vreg) (rd s.vreg) (rd .rax) width flags)
  | .load dst addr width extend => load i.mem dst (computeAddress env i addr) width extend
  | .store s addr width => store i.mem (computeAddress env i addr) (rd s) width
  | .predLoad dst cond addr width extend =>
    if (rd cond).bit 0 then load i.mem dst (computeAddress env i addr) width extend
    else i.done {}
  | .predStore s cond addr width =>
    if (rd cond).bit 0 then store i.mem (computeAddress env i addr) (src s) width
    else i.done {}
  | .loadPair dst1 dst2 addr width =>
    loadPair i.mem dst1 dst2 (computeAddress env i addr) width
  | .storePair src1 src2 addr width =>
    storePair i.mem (computeAddress env i addr) (rd src1) (rd src2) width
  | .ioIn dst _ _ => i.done { writes := [⟨dst, .raw, 0⟩] }
  | .ioOut .. => i.done {}
  | .readFlags dst =>
    i.done { writes := [⟨dst, .raw, i.flags.toRflags⟩], flags := .settle }
  | .writeFlags s =>
    let image := FlagImage.ofRflags (rd s)
    i.done { flags := .assign (fun f => some (image.bit f)) (some image.df) (some image.ac) }
  | .setCF value =>
    i.done { flags := .assign (fun f => if f = .cf then some value else none) none none }
  | .setDF value => i.done { flags := .assign (fun _ => none) (some value) none }
  | .setAC value =>
    if x86 && (env.x86.cr0 &&& 1 == 0 || env.x86.cpl == 0) then
      i.done { flags := .assign (fun _ => none) none (some value) }
    else i.done (.trap op.guestPc)
  | .cmcCF =>
    let cf := i.flags.bit .cf
    i.done { flags := .assign (fun f => if f = .cf then some (!cf) else none) none none }
  | .materializeFlags => i.done { flags := .settle }
  | .x86XTest => i.done { flags := .assign (fun f => some (f == .zf)) none none }
  | .testCondition dst cond =>
    let result : Word := if FlagImage.evalCondition i.flags.bit cond then 1 else 0
    i.done { writes := [⟨dst, .raw, result⟩] }
  | .setCC dst cond width =>
    let result : Word := if FlagImage.evalCondition i.flags.bit cond then 1 else 0
    i.done { writes := [⟨dst, .part width, result &&& width.mask⟩] }
  | .x86Require feature =>
    if featureEnabled env (rd (.x86 .rflags)) feature then i.done {}
    else i.done (.trap op.guestPc)
  | .nop => i.done {}
  | .undefined opcode => i.done { exit := some (.undefined i.pc opcode) }
  | .breakpoint => i.done { exit := some (.breakpoint i.pc) }
  | .other o => o.eval env i

/-- The registers an operation reads. -/
def OpKind.reads : OpKind μ → List VReg
  | .arith _ _ src1 src2 _ _ | .logic _ _ src1 src2 _ _ | .cmp src1 src2 _
  | .test src1 src2 _ | .mul _ _ _ src1 src2 _ _ | .bt src1 src2 _
  | .bitMod _ _ src1 src2 _ | .shift _ _ src1 src2 _ _ | .rotate _ _ src1 src2 _ _
  | .armRegShift _ src1 src2 _ _ _ | .rotateCarry _ _ src1 src2 _ _ => src1 :: src2.regs
  | .neg _ s _ _ | .incDec _ _ s _ _ | .not _ s _ | .scan _ _ s _ _ | .x86Bls _ s _ _ _
  | .x86Tbm _ s _ _ _ | .bitCount _ _ s _ | .x86Count _ s _ _ _ | .bswap _ s _ | .rbit _ s _
  | .bfx _ s _ _ _ _ | .cmove _ s _ _ | .extend _ _ s _ _ | .cwd _ s _ | .truncate _ s _ _
  | .writeFlags s => [s]
  | .mulAcc _ _ acc src1 src2 _ => [acc, src1, src2]
  | .div _ _ _ src1 src2 width _ => src1 :: (if width = .w8 then .rax else .rdx) :: src2.regs
  | .doubleShift _ dst s amount _ _ => dst :: s :: amount.regs
  | .x86NddDoubleShift _ base fill amount _ _ _ => base :: fill :: amount.regs
  | .armDpRegShift _ _ rn rm rs _ _ => rm :: rs :: rn.toList
  | .bidirShift _ s amount _ _ | .satOrigShl _ s amount _ _ => s.regs ++ amount.regs
  | .satN _ s _ _ _ _ | .mov _ s _ => s.regs
  | .clMul dst dstHi src1 src2 _ _ acc =>
    src1.regs ++ src2.regs ++ if acc then dst :: dstHi.toList else []
  | .crc32C _ a b _ | .bextr _ a b _ _ | .bzhi _ a b _ _ | .x86Adx _ a b _ _ _ | .pdep _ a b _
  | .pext _ a b _ | .bfi _ a b _ _ _ | .xchg a b _ => [a, b]
  | .cmpyW128Sat _ rssLo rssHi rttLo rttHi _ _ _ _ _ _ => [rssLo, rssHi, rttLo, rttHi]
  | .select _ cond srcTrue srcFalse _ => [cond, srcTrue, srcFalse]
  | .lea _ addr | .x86Lea _ addr _ | .load _ addr _ _ | .loadPair _ _ addr _ => addr.reads
  | .x86Xadd dst s _ _ => [dst.vreg, s.vreg]
  | .x86Cmpxchg dst s _ _ => [dst.vreg, s.vreg, .rax]
  | .store s addr _ => s :: addr.reads
  | .predLoad _ cond addr _ _ => cond :: addr.reads
  | .predStore s cond addr _ => cond :: (s.regs ++ addr.reads)
  | .storePair src1 src2 addr _ => src1 :: src2 :: addr.reads
  | .x86Require _ => [.x86 .rflags]
  | .ioIn .. | .ioOut .. | .readFlags _ | .setCF _ | .setDF _ | .setAC _ | .cmcCF
  | .materializeFlags | .x86XTest | .testCondition .. | .setCC .. | .nop | .undefined _
  | .breakpoint => []
  | .other o => o.reads

/-- The status flags an operation reads. An AArch32 shift uses the carry to produce its own
carry and, when it rotates through the carry, for its result. -/
def OpKind.flagReads : OpKind μ → FlagSet
  | .arith .adc .. | .arith .sbb .. | .rotateCarry .. | .x86Adx _ _ _ _ .adcx _ | .cmcCF =>
    {.cf}
  | .armRegShift _ _ _ sh _ flags =>
    if sh = .rrx ∨ .cf ∈ flags.asSet then {.cf} else ∅
  | .armDpRegShift kind _ _ _ _ sh flags =>
    if sh = .rrx ∨ kind.readsCarry ∨ kind.isLogical ∧ .cf ∈ flags.asSet then {.cf} else ∅
  | .x86Adx _ _ _ _ .adox _ => {.of}
  | .cmove _ _ cond _ | .testCondition _ cond | .setCC _ cond _ => FlagImage.requiredFlags cond
  | .readFlags _ => FlagSet.allX86
  | .other o => o.flagReads
  | _ => ∅

/-- Whether an operation looks at the program counter of the context. -/
def OpKind.readsPc : OpKind μ → Bool
  | .lea _ addr | .x86Lea _ addr _ | .load _ addr _ _ | .loadPair _ _ addr _ | .store _ addr _
  | .predLoad _ _ addr _ _ | .predStore _ _ addr _ | .storePair _ _ addr _ => addr.readsPc
  | .undefined _ | .breakpoint | .other _ => true
  | _ => false

section Congruence

variable [SmirMemory μ]

open Interpret

/-- Evaluation depends only on the registers and flags that the operation reads. -/
theorem eval_congr (env : Env) (op : SmirOp μ) {i j : Inputs μ}
    (h : i.Agree op.kind.reads op.kind.flagReads op.kind.readsPc j) :
    eval env op i = eval env op j := by
  have hagree := h
  obtain ⟨hread, hbit, hdf, hac, hpc, hmem⟩ := h
  have hs (s : SrcOperand) (h : ∀ r ∈ s.regs, i.read r = j.read r) :
      readSrcOperand i.read s = readSrcOperand j.read s := readSrcOperand_congr h
  have ha (a : Address) (h : ∀ r ∈ a.reads, i.read r = j.read r)
      (hp : a.readsPc = true → i.pc = j.pc) : computeAddress env i a = computeAddress env j a :=
    computeAddressAt_congr h hp false
  have hc (c : Condition) (h : ∀ f ∈ FlagImage.requiredFlags c, i.flags.bit f = j.flags.bit f) :
      FlagImage.evalCondition i.flags.bit c = FlagImage.evalCondition j.flags.bit c :=
    FlagImage.evalCondition_congr h
  obtain ⟨pc, kind, hint⟩ := op
  cases kind
  case other o => exact o.eval_congr env i j hagree
  case readFlags dst =>
    have himage : i.flags = j.flags := by
      cases hi : i.flags
      cases hj : j.flags
      simp_all [OpKind.flagReads, funext_iff]
    simp [eval, Inputs.done, himage, hmem]
  all_goals
    simp only [OpKind.reads, OpKind.flagReads, OpKind.readsPc, List.mem_cons, List.mem_append,
      List.not_mem_nil, or_false, forall_eq_or_imp, forall_eq, Finset.mem_singleton]
      at hread hbit hpc
  case armRegShift dst src amount sh width flags =>
    simp only [eval, Inputs.done, hmem, hread.1, hs amount hread.2]
    rw [armRegShift_carry]
    intro hcarry
    rw [if_pos hcarry] at hbit
    exact hbit .cf (Finset.mem_singleton_self _)
  case armDpRegShift kind dst rn rm rs sh flags =>
    have hrn : (rn.map i.read).getD 0 = (rn.map j.read).getD 0 := by cases rn <;> simp_all
    simp only [eval, Inputs.done, hmem, hread.1, hread.2.1, hrn]
    rw [armDpRegShift_carry]
    intro hcarry
    rw [if_pos hcarry] at hbit
    exact hbit .cf (Finset.mem_singleton_self _)
  case arith kind _ _ _ _ _ =>
    cases kind <;> simp_all [eval, Inputs.done, arith, arithResult]
  case clMul dst dstHi src1 src2 elemBits lanes acc =>
    cases acc <;> cases dstHi <;> simp_all [eval, Inputs.done, clMul]
  case div signed quot rem src1 src2 width flags =>
    simp only [eval, Inputs.done, hmem, hread.1, hs src2 hread.2.2]
    rw [div_congr]
    have hdividend := hread.2.1
    split at hdividend <;> simp_all
  case x86Adx kind _ =>
    cases kind <;> simp_all [eval, Inputs.done, x86Adx]
  all_goals
    simp +contextual [eval, Inputs.done, *]

end Congruence

end Rax.Smir

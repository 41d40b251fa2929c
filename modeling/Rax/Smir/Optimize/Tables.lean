import Rax.Smir.Interpret.Exec

/-!
# The optimizer's view of an operation

Transcription of the tables that the passes consult: `dests`, `has_side_effects`
(`smir/ir/ops.rs`), `flags_written`, `flags_must_write`, `flags_read`, `source_vregs`
(`smir/optimize/mod.rs`), `op_out_width`, `op_fully_defines` and
`op_has_precise_deopt_edge` (`smir/optimize/liveness.rs`). Nothing here says that a table is
right: a second operand that is shifted or extended, for instance, is missing from
`sourceVregs`.
-/

namespace Rax.Smir

variable {μ : Type}

namespace OpKind

/-- `dests`. -/
def dests : OpKind μ → List VReg
  | .arith _ dst _ _ _ _ | .neg dst _ _ _ | .incDec _ dst _ _ _ | .logic _ dst _ _ _ _
  | .not dst _ _ | .shift _ dst _ _ _ _ | .doubleShift _ dst _ _ _ _
  | .x86NddDoubleShift dst _ _ _ _ _ _ | .rotate _ dst _ _ _ _ | .armRegShift dst _ _ _ _ _
  | .rotateCarry _ dst _ _ _ _ | .bidirShift dst _ _ _ _ | .satN dst _ _ _ _ _
  | .crc32C dst _ _ _ | .bitMod _ dst _ _ _ | .scan _ dst _ _ _ | .bextr dst _ _ _ _
  | .bzhi dst _ _ _ _ | .x86Bls dst _ _ _ _ | .x86Tbm dst _ _ _ _ | .x86Adx dst _ _ _ _ _
  | .pdep dst _ _ _ | .pext dst _ _ _ | .bitCount _ dst _ _ | .x86Count dst _ _ _ _
  | .bswap dst _ _ | .rbit dst _ _ | .bfx dst _ _ _ _ _ | .bfi dst _ _ _ _ _ | .mov dst _ _
  | .cmove dst _ _ _ | .select dst _ _ _ _ | .extend _ dst _ _ _ | .cwd dst _ _
  | .truncate dst _ _ _ | .lea dst _ | .x86Lea dst _ _ | .load dst _ _ _
  | .predLoad dst _ _ _ _ | .cmpyW128Sat dst _ _ _ _ _ _ _ _ _ _ | .satOrigShl dst _ _ _ _
  | .mulAcc _ dst _ _ _ _ | .ioIn dst _ _ | .readFlags dst | .testCondition dst _
  | .setCC dst _ _ => [dst]
  | .armDpRegShift _ dst _ _ _ _ _ => dst.toList
  | .mul _ dstLo dstHi _ _ _ _ => dstLo :: dstHi.toList
  | .clMul dst dstHi _ _ _ _ _ => dst :: dstHi.toList
  | .div _ quot rem _ _ _ _ => quot :: rem.toList
  | .loadPair dst1 dst2 _ _ => [dst1, dst2]
  | .xchg reg1 reg2 _ => [reg1, reg2]
  | .x86Xadd dst src _ _ => [dst.vreg, src.vreg]
  | .x86Cmpxchg dst _ _ _ => [dst.vreg, .rax]
  | .cmp .. | .test .. | .bt .. | .store .. | .predStore .. | .storePair .. | .writeFlags _
  | .setCF _ | .setDF _ | .setAC _ | .x86Require _ | .cmcCF | .materializeFlags | .x86XTest
  | .ioOut .. | .nop | .undefined _ | .breakpoint => []
  | .other o => o.dests

/-- The implicit dividend half is listed for one register assignment only. -/
def divUsesRdx (quot : VReg) (rem : Option VReg) (src1 : VReg) (width : OpWidth) : Bool :=
  quot = .rax && rem = some .rdx && src1 = .rax &&
    (width = .w16 || width = .w32 || width = .w64)

/-- `source_vregs`. -/
def sourceVregs : OpKind μ → List VReg
  | .arith _ _ src1 src2 _ _ | .logic _ _ src1 src2 _ _ | .cmp src1 src2 _
  | .test src1 src2 _ | .mul _ _ _ src1 src2 _ _ | .shift _ _ src1 src2 _ _
  | .rotate _ _ src1 src2 _ _ | .armRegShift _ src1 src2 _ _ _
  | .rotateCarry _ _ src1 src2 _ _ | .bt src1 src2 _ | .bitMod _ _ src1 src2 _ =>
    src1 :: src2.plainReg
  | .doubleShift _ dst s amount _ _ => dst :: s :: amount.plainReg
  | .x86NddDoubleShift _ base fill amount _ _ _ => base :: fill :: amount.plainReg
  | .div _ quot rem src1 src2 width _ =>
    src1 :: ((if divUsesRdx quot rem src1 width then [.rdx] else []) ++ src2.plainReg)
  | .mulAcc _ _ acc src1 src2 _ => [acc, src1, src2]
  | .bextr _ a b _ _ | .bzhi _ a b _ _ | .x86Adx _ a b _ _ _ | .pdep _ a b _ | .pext _ a b _
  | .crc32C _ a b _ | .xchg a b _ => [a, b]
  | .bfi _ dstIn s _ _ _ => [s, dstIn]
  | .x86Bls _ s _ _ _ | .x86Tbm _ s _ _ _ | .neg _ s _ _ | .incDec _ _ s _ _ | .not _ s _
  | .cwd _ s _ | .scan _ _ s _ _ | .bitCount _ _ s _ | .x86Count _ s _ _ _ | .bswap _ s _
  | .rbit _ s _ | .bfx _ s _ _ _ _ | .cmove _ s _ _ | .extend _ _ s _ _ | .truncate _ s _ _
  | .writeFlags s => [s]
  | .armDpRegShift _ _ rn rm rs _ _ => rn.toList ++ [rm, rs]
  | .bidirShift _ s amount _ _ | .satOrigShl _ s amount _ _ =>
    s.plainReg ++ amount.plainReg
  | .satN _ s _ _ _ _ | .mov _ s _ => s.plainReg
  | .clMul dst dstHi src1 src2 _ _ acc =>
    src1.plainReg ++ src2.plainReg ++ if acc then dst :: dstHi.toList else []
  | .cmpyW128Sat _ rssLo rssHi rttLo rttHi _ _ _ _ _ _ => [rssLo, rssHi, rttLo, rttHi]
  | .select _ cond srcTrue srcFalse _ => [cond, srcTrue, srcFalse]
  | .lea _ addr | .x86Lea _ addr _ | .load _ addr _ _ | .loadPair _ _ addr _ => addr.regs
  | .x86Xadd dst s _ _ => [dst.vreg, s.vreg]
  | .x86Cmpxchg dst s _ _ => [dst.vreg, s.vreg, .rax]
  | .store s addr _ => s :: addr.regs
  | .predLoad _ cond addr _ _ => cond :: addr.regs
  | .predStore s cond addr _ => cond :: (s.plainReg ++ addr.regs)
  | .storePair src1 src2 addr _ => src1 :: src2 :: addr.regs
  | .ioIn _ port _ => [port]
  | .ioOut port value _ => [port, value]
  | .readFlags _ | .setCF _ | .setDF _ | .setAC _ | .cmcCF | .materializeFlags | .x86XTest
  | .testCondition .. | .setCC .. | .x86Require _ | .nop | .undefined _ | .breakpoint => []
  | .other o => o.sources

/-- `op_out_width`. -/
def outWidth : OpKind μ → Option OpWidth
  | .armDpRegShift .. => some .w32
  | .arith _ _ _ _ width _ | .x86Xadd _ _ width _ | .neg _ _ width _ | .incDec _ _ _ width _
  | .logic _ _ _ _ width _ | .not _ _ width | .shift _ _ _ _ width _
  | .doubleShift _ _ _ _ width _ | .x86NddDoubleShift _ _ _ _ width _ _
  | .rotate _ _ _ _ width _ | .armRegShift _ _ _ _ width _ | .rotateCarry _ _ _ _ width _
  | .mul _ _ _ _ _ width _ | .div _ _ _ _ _ width _ | .mov _ _ width | .cmove _ _ _ width
  | .cwd _ _ width | .scan _ _ _ width _ | .bitCount _ _ _ width | .x86Count _ _ width _ _
  | .x86Bls _ _ width _ _ | .x86Tbm _ _ width _ _ | .x86Adx _ _ _ width _ _
  | .bswap _ _ width | .bt _ _ width | .bitMod _ _ _ _ width => some width
  | .crc32C .. | .lea .. => some .w64
  | .extend _ _ _ _ toWidth => some toWidth
  | .x86Lea _ _ width => some width
  | .setCC .. => some .w8
  | .other o => o.outWidth
  | _ => none

/-- `op_fully_defines`. -/
def fullyDefines (kind : OpKind μ) : Bool :=
  kind.dests.isEmpty || kind.dests.all VReg.isVirtual ||
    match kind.outWidth with
    | some width => !width.isSub
    | none => false

/-- `op_has_precise_deopt_edge`. -/
def hasPreciseDeoptEdge : OpKind μ → Bool
  | .x86Require _ | .ioIn .. | .ioOut .. => true
  | .other o => o.preciseDeopt
  | _ => false

/-- `has_side_effects`. -/
def hasSideEffects : OpKind μ → Bool
  | .load .. | .predLoad .. | .loadPair .. | .store .. | .predStore .. | .storePair ..
  | .ioIn .. | .ioOut .. | .writeFlags _ | .setCF _ | .setDF _ | .setAC _ | .x86Require _
  | .cmcCF | .materializeFlags | .x86XTest | .breakpoint => true
  | .satN _ _ _ _ setOvf _ => setOvf
  | .other o => o.sideEffects
  | _ => false

/-- The request that `flags_written_mut` points to. -/
def flagField : OpKind μ → Option FlagUpdate
  | .arith _ _ _ _ _ flags | .x86Xadd _ _ _ flags | .x86Cmpxchg _ _ _ flags | .neg _ _ _ flags
  | .incDec _ _ _ _ flags | .logic _ _ _ _ _ flags | .shift _ _ _ _ _ flags
  | .doubleShift _ _ _ _ _ flags | .x86NddDoubleShift _ _ _ _ _ _ flags
  | .rotate _ _ _ _ _ flags | .armRegShift _ _ _ _ _ flags | .armDpRegShift _ _ _ _ _ _ flags
  | .rotateCarry _ _ _ _ _ flags | .scan _ _ _ _ flags | .x86Count _ _ _ _ flags
  | .bextr _ _ _ _ flags | .bzhi _ _ _ _ flags | .x86Bls _ _ _ _ flags
  | .x86Tbm _ _ _ _ flags | .x86Adx _ _ _ _ _ flags | .mul _ _ _ _ _ _ flags => some flags
  | _ => none

/-- `flags_written`. -/
def flagsWritten : OpKind μ → FlagSet
  | .rotate _ _ _ _ _ flags | .rotateCarry _ _ _ _ _ flags => flags.asSet ∩ {.cf, .of}
  | .incDec _ _ _ _ flags => flags.asSet \ {.cf}
  | .cmp .. | .test .. | .x86XTest => FlagSet.allX86
  | .bt .. | .bitMod .. | .setCF _ | .cmcCF => {.cf}
  | .other o => o.flagsWritten
  | op =>
    match op.flagField with
    | some flags => flags.asSet
    | none => ∅

/-- `flags_must_write`. -/
def flagsMustWrite : OpKind μ → FlagSet
  | .shift .. | .doubleShift .. | .x86NddDoubleShift .. | .rotate .. | .rotateCarry ..
  | .mul .. | .scan .. => ∅
  | .other o => o.flagsMustWrite
  | op => op.flagsWritten

/-- `flags_read`. -/
def flagsRead : OpKind μ → FlagSet
  | .arith .adc .. | .arith .sbb .. | .rotateCarry .. | .cmcCF => {.cf}
  | .armRegShift _ _ _ _ _ flags => if .cf ∈ flags.asSet then {.cf} else ∅
  | .armDpRegShift kind _ _ _ _ _ flags =>
    if kind.readsCarry ∨ kind.isLogical ∧ .cf ∈ flags.asSet then {.cf} else ∅
  | .x86Adx _ _ _ _ .adcx _ => {.cf}
  | .x86Adx _ _ _ _ .adox _ => {.of}
  | .cmove _ _ cond _ | .setCC _ cond _ | .testCondition _ cond => FlagImage.requiredFlags cond
  | .mov _ (.reg (.arch (.arm .nzcv))) _ => FlagSet.nzcv
  | .readFlags _ => FlagSet.allX86
  | .other o => o.flagsRead
  | _ => ∅

end OpKind

end Rax.Smir

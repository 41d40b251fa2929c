import Rax.Lib.Rewriting
import Rax.Smir.Interpret.Move
import Rax.Smir.Optimize.RegFootprint

/-!
# Constant propagation

`constant_propagation` of `smir/optimize/mod.rs` walks a block forwards with a table of known
register values, replaces register operands by immediates and computes results of its own. The
walk is right as long as the table describes the machine. Three things can break that: a shift
whose count the interpreter reduces to five bits, a destination that does not store what is
written to it, and an operation that changes a known register without listing it in `dests`.
-/

namespace Rax.Smir

variable {μ : Type}

/-- The known register values. -/
abbrev Constants := VReg → Option Word

namespace Constants

/-- A known register operand becomes an immediate. -/
def substitute (c : Constants) (adjust : Word → Word) : SrcOperand → SrcOperand
  | .reg r =>
    match c r with
    | some v => .imm (adjust v)
    | none => .reg r
  | src => src

/-- How many operands a substitution replaces. -/
def hits (c : Constants) : SrcOperand → Nat
  | .reg r => if (c r).isSome then 1 else 0
  | _ => 0

/-- Forget the destinations of an operation, or record the value computed for the destination. -/
def update (c : Constants) (dests : List VReg) (value : Option Word) : Constants := fun r =>
  if r ∈ dests then value else c r

end Constants

/-- Only these definitions overwrite the whole destination. -/
def trackable : OpWidth → Bool
  | .w32 | .w64 => true
  | _ => false

namespace ConstProp

/-- One bit of the pass's own Castagnoli recurrence. -/
def crcStep (crc : BitVec 32) : BitVec 32 :=
  (crc >>> 1) ^^^ (0x82F63B78#32 &&& (0#32 - (crc &&& 1#32)))

/-- The pass's own `crc32c`. -/
def crc32c (crc : BitVec 32) (data : Word) (width : OpWidth) : Option (BitVec 32) :=
  match width with
  | .w8 | .w16 | .w32 | .w64 =>
    some ((List.range (width.bits / 8)).foldl
      (fun crc byte =>
        Nat.iterate crcStep 8 (crc ^^^ ((Word.shr data (byte * 8)) &&& 0xff).setWidth 32))
      crc)
  | .w128 => none

/-- The folded result of a generic shift. The count keeps six bits at every width. -/
def foldShift (kind : ShiftKind) (width : OpWidth) (v amount : Word) : Word :=
  let cnt := (amount &&& 0x3f).toNat
  let base := v &&& width.mask
  (if width.bits ≤ cnt then
    if kind = .sar ∧ base &&& width.signBit ≠ 0 then width.mask else 0
  else
    match kind with
    | .shl => base <<< cnt
    | .sar => ((base <<< (64 - width.bits)).sshiftRight (64 - width.bits)).sshiftRight cnt
    | .shr => base >>> cnt) &&& width.mask

/-- The folded result of an AArch32 shift by register. -/
def foldArmRegShift (shift : ShiftOp) (value : BitVec 32) (amount : Word) :
    Option (BitVec 32) :=
  let count := (amount &&& 0xff).toNat
  match shift with
  | .lsl => some (if count < 32 then value <<< count else 0)
  | .lsr => some (if count < 32 then value >>> count else 0)
  | .asr =>
    some (if count < 32 then value.sshiftRight count
      else if value &&& 0x80000000#32 ≠ 0 then 0xFFFFFFFF else 0)
  | .ror => some (value.rotateRight (count % 32))
  | .rrx => none

end ConstProp

namespace OpKind

open ConstProp

section Pass

variable (c : Constants)

/-- `folded_crc`: both operands of a `Crc32C` are known. -/
def foldedCrc (crc data : VReg) (dataWidth : OpWidth) : Option Word :=
  match c crc, c data with
  | some x, some y => (crc32c (x.setWidth 32) y dataWidth).map (·.setWidth 64)
  | _, _ => none

/-- The operation after its operands have been replaced. -/
def withConstants : OpKind μ → OpKind μ
  | .mov dst src width => .mov dst (c.substitute (· &&& width.mask) src) width
  | .add dst src1 src2 width flags =>
    .add dst src1 (c.substitute (· &&& width.mask) src2) width flags
  | .sub dst src1 src2 width flags =>
    .sub dst src1 (c.substitute (· &&& width.mask) src2) width flags
  | .and dst src1 src2 width flags =>
    .and dst src1 (c.substitute (· &&& width.mask) src2) width flags
  | .or dst src1 src2 width flags =>
    .or dst src1 (c.substitute (· &&& width.mask) src2) width flags
  | .xor dst src1 src2 width flags =>
    .xor dst src1 (c.substitute (· &&& width.mask) src2) width flags
  | .shift kind dst src amount width flags =>
    .shift kind dst src (c.substitute id amount) width flags
  | .armRegShift dst src amount sh width flags =>
    .armRegShift dst src (c.substitute id amount) sh width flags
  | .crc32C dst crc data dataWidth =>
    match foldedCrc c crc data dataWidth with
    | some value => .mov dst (.imm value) .w64
    | none => .crc32C dst crc data dataWidth
  | kind => kind

/-- How much `propagated` grows at an operation. -/
def propagations : OpKind μ → Nat
  | .mov _ src _ => c.hits src
  | .add _ _ src2 _ _ | .sub _ _ src2 _ _ | .and _ _ src2 _ _ | .or _ _ src2 _ _
  | .xor _ _ src2 _ _ => c.hits src2
  | .shift _ _ _ amount _ _ | .armRegShift _ _ amount _ _ _ => c.hits amount
  | .crc32C _ crc data dataWidth => if (foldedCrc c crc data dataWidth).isSome then 1 else 0
  | _ => 0

/-- The result of two known operands. -/
def foldAlu (alu : Word → Word → Word) (src1 : VReg) (src2 : SrcOperand) (width : OpWidth) :
    Option Word :=
  match c src1, c.substitute (· &&& width.mask) src2 with
  | some v1, .imm v2 =>
    if trackable width then some (alu (v1 &&& width.mask) (v2 &&& width.mask) &&& width.mask)
    else none
  | _, _ => none

/-- The value that the pass computes for the destination. -/
def folded : OpKind μ → Option Word
  | .mov _ src width =>
    match c.substitute (· &&& width.mask) src with
    | .imm v => if trackable width then some (v &&& width.mask) else none
    | _ => none
  | .add _ src1 src2 width _ => foldAlu c (· + ·) src1 src2 width
  | .sub _ src1 src2 width _ => foldAlu c (· - ·) src1 src2 width
  | .and _ src1 src2 width _ => foldAlu c (· &&& ·) src1 src2 width
  | .or _ src1 src2 width _ => foldAlu c (· ||| ·) src1 src2 width
  | .xor _ src1 src2 width _ => foldAlu c (· ^^^ ·) src1 src2 width
  | .shift kind _ src amount width _ =>
    match c src, c.substitute id amount with
    | some v, .imm a => if trackable width then some (foldShift kind width v a) else none
    | _, _ => none
  | .armRegShift _ src amount sh width _ =>
    match c src, c.substitute id amount with
    | some v, .imm a =>
      if width = .w32 then (foldArmRegShift sh (v.setWidth 32) a).map (·.setWidth 64) else none
    | _, _ => none
  | .crc32C _ crc data dataWidth => foldedCrc c crc data dataWidth
  | _ => none

end Pass

end OpKind

/-- One iteration of the loop. -/
def constStep (c : Constants) (op : SmirOp μ) : SmirOp μ × Constants :=
  ({ op with kind := op.kind.withConstants c }, c.update op.kind.dests (op.kind.folded c))

/-- The number of operands replaced in a block. -/
def constCount : Constants → List (SmirOp μ) → Nat
  | _, [] => 0
  | c, op :: ops => op.kind.propagations c + constCount (constStep c op).2 ops

/-- `constant_propagation`. -/
def constantPropagation (ops : List (SmirOp μ)) : List (SmirOp μ) × Nat :=
  (rewriteSeq constStep (fun _ => none) ops, constCount (fun _ => none) ops)

/-- A shift that the pass folds uses the same count in the interpreter. -/
def OpKind.countsAgree (sourceArch : SourceArch) (c : Constants) : OpKind μ → Bool
  | .shift _ _ src amount width _ =>
    match c src, c.substitute id amount with
    | some _, .imm a =>
      !trackable width || a &&& 0x3F == a &&& scalarShiftCountMask sourceArch width
    | _, _ => true
  | _ => true

/-! ## The arithmetic of the pass -/

variable {width : OpWidth}

namespace ConstProp

theorem crcStep_eq (crc : BitVec 32) : crcStep crc = Interpret.crcBit crc := by
  have hbit : crc &&& 1#32 = (BitVec.ofBool (crc.getLsbD 0)).setWidth 32 :=
    BitVec.and_one_eq_setWidth_ofBool_getLsbD
  rw [crcStep, Interpret.crcBit, hbit]
  cases crc.getLsbD 0 <;> rfl

theorem crc32c_eq {crc value : BitVec 32} {data : Word} (h : crc32c crc data width = some value) :
    value = Interpret.crc32c crc data width := by
  have hstep : crcStep = Interpret.crcBit := funext crcStep_eq
  cases width with
  | w128 => cases h
  | _ =>
    simp only [crc32c, hstep] at h
    exact (Option.some.inj h).symm

theorem getLsbD_mask_w32 (i : Nat) : (OpWidth.mask .w32).getLsbD i = decide (i < 32) := by
  have hmask : OpWidth.mask .w32 = (BitVec.allOnes 32).setWidth 64 := rfl
  rw [hmask, BitVec.getLsbD_setWidth, BitVec.getLsbD_allOnes]
  by_cases hi : i < 32
  · simp [hi]
    omega
  · simp [hi]

theorem signBit_w32 (v : Word) :
    (v &&& OpWidth.mask .w32 &&& OpWidth.signBit .w32 != 0) = v.getLsbD 31 := by
  have htwo : OpWidth.signBit .w32 = BitVec.twoPow 64 31 := rfl
  rw [htwo, BitVec.and_twoPow, BitVec.getLsbD_and, getLsbD_mask_w32]
  cases v.getLsbD 31 <;> rfl

/-- The pass extends the sign of a tracked operand by shifting it up and down. -/
theorem sshiftRight_shiftLeft (hw : trackable width = true) (v : Word) :
    ((v &&& width.mask) <<< (64 - width.bits)).sshiftRight (64 - width.bits) =
      signExtend (v &&& width.mask) width := by
  cases width with
  | w64 =>
    have hmask : v &&& OpWidth.mask .w64 = v := BitVec.and_allOnes
    have hor : v ||| ~~~OpWidth.mask .w64 = v := BitVec.or_zero
    rw [hmask, signExtend, hor, ite_self]
    exact BitVec.sshiftRight_zero.trans (BitVec.shiftLeft_zero v)
  | w32 =>
    have hmsb : ((v &&& OpWidth.mask .w32) <<< 32).msb = v.getLsbD 31 := by
      rw [BitVec.msb_eq_getLsbD_last, BitVec.getLsbD_shiftLeft, BitVec.getLsbD_and,
        getLsbD_mask_w32]
      simp
    rw [signExtend, signBit_w32]
    refine BitVec.eq_of_getLsbD_eq fun i hi => ?_
    rw [show 64 - OpWidth.bits .w32 = 32 from rfl, BitVec.getLsbD_sshiftRight, hmsb]
    have hin : ¬ 64 ≤ i := by omega
    by_cases hlow : i < 32
    · have hup : 32 + i < 64 := by omega
      rw [if_pos hup, BitVec.getLsbD_shiftLeft, BitVec.getLsbD_and, getLsbD_mask_w32,
        Nat.add_sub_cancel_left]
      cases v.getLsbD 31 <;>
        simp [-BitVec.getLsbD_eq_getElem, getLsbD_mask_w32, hlow, hi, hin] <;> omega
    · rw [if_neg (by omega)]
      cases v.getLsbD 31 <;> simp [-BitVec.getLsbD_eq_getElem, getLsbD_mask_w32, hlow, hi, hin]
  | _ => cases hw

theorem msb_signExtend (hw : trackable width = true) (v : Word) :
    (signExtend (v &&& width.mask) width).msb = (v &&& width.mask &&& width.signBit != 0) := by
  rw [← sshiftRight_shiftLeft hw, BitVec.msb_sshiftRight, BitVec.msb_eq_getLsbD_last,
    BitVec.getLsbD_shiftLeft]
  cases width with
  | w64 =>
    have hmask : v &&& OpWidth.mask .w64 = v := BitVec.and_allOnes
    have htwo : OpWidth.signBit .w64 = BitVec.twoPow 64 63 := rfl
    rw [hmask, htwo, BitVec.and_twoPow]
    show v.getLsbD 63 = _
    cases v.getLsbD 63 <;> rfl
  | w32 =>
    rw [signBit_w32, BitVec.getLsbD_and, getLsbD_mask_w32]
    exact Bool.and_true _
  | _ => cases hw

/-- Folding a shift by the count that the interpreter uses gives what it computes. -/
theorem foldShift_eq (hw : trackable width = true) (kind : ShiftKind) {v amount mask : Word}
    (hcount : amount &&& 0x3F = amount &&& mask) :
    foldShift kind width v amount =
      Interpret.shiftValue kind width v (amount &&& mask).toNat &&& width.mask := by
  rw [← hcount]
  have hzero (x : Word) : 0 &&& x = 0 := BitVec.zero_and
  cases kind with
  | shl =>
    rw [Interpret.shiftValue, ← Interpret.shiftResult_shl]
    simp only [foldShift, Interpret.shiftResult]
    split_ifs <;> simp_all
  | shr =>
    rw [Interpret.shiftValue, ← Interpret.shiftResult_shr]
    simp only [foldShift, Interpret.shiftResult]
    split_ifs <;> simp_all
  | sar =>
    simp only [foldShift, Interpret.shiftValue, Interpret.shiftResult, sshiftRight_shiftLeft hw,
      msb_signExtend hw, bne_iff_ne, true_and]
    split_ifs <;> simp

/-- Folding an AArch32 shift. -/
theorem foldArmRegShift_eq {sh : ShiftOp} {value out : BitVec 32} {amount : Word} (carry : Bool)
    (h : foldArmRegShift sh value amount = some out) :
    out = (Interpret.shiftC value sh (amount &&& 0xFF).toNat carry).1 := by
  have hsign : (value &&& 0x80000000#32 ≠ 0) ↔ value.msb = true := by
    have htwo : 0x80000000#32 = BitVec.twoPow 32 31 := rfl
    rw [htwo, BitVec.and_twoPow, BitVec.msb_eq_getLsbD_last]
    cases value.getLsbD 31 <;> simp
  simp only [foldArmRegShift] at h
  generalize (amount &&& 0xFF).toNat = n at h ⊢
  by_cases hn : n = 0
  · subst hn
    cases sh with
    | rrx => cases h
    | ror =>
      cases h
      exact BitVec.eq_of_toNat_eq (by
        simp [Interpret.shiftC, BitVec.toNat_rotateRight, Nat.shiftLeft_eq])
    | _ =>
      cases h
      simp [Interpret.shiftC]
  · cases sh with
    | rrx => cases h
    | _ =>
      cases h
      simp only [Interpret.shiftC, if_neg hn, hsign]
      try split_ifs <;> first | rfl | omega

end ConstProp

/-! ## The table describes the machine -/

variable {v : Word}

section Table

variable {env : Env} {c : Constants} {m : Machine μ}

/-- Every tracked constant is the value that its register holds. -/
def ConstantsHold (env : Env) (c : Constants) (m : Machine μ) : Prop :=
  ∀ r v, c r = some v → m.read env r = v

/-- A substituted operand has the value of the operand. -/
theorem ConstantsHold.readSrcOperand_substitute (hI : ConstantsHold env c m)
    (adjust : Word → Word) (src : SrcOperand) :
    (readSrcOperand (m.read env) (c.substitute adjust src) =
        readSrcOperand (m.read env) src) ∨
      readSrcOperand (m.read env) (c.substitute adjust src) =
        adjust (readSrcOperand (m.read env) src) := by
  cases src with
  | reg r =>
    cases hr : c r with
    | none => exact Or.inl (by simp [Constants.substitute, hr])
    | some v =>
      have hread : m.read env r = v := hI r v hr
      exact Or.inr (by simp [Constants.substitute, hr, readSrcOperand, hread])
  | _ => exact Or.inl rfl

theorem ConstantsHold.substitute_mask (hI : ConstantsHold env c m) (width : OpWidth)
    (src : SrcOperand) :
    readSrcOperand (m.read env) (c.substitute (· &&& width.mask) src) &&& width.mask =
      readSrcOperand (m.read env) src &&& width.mask := by
  rcases hI.readSrcOperand_substitute (· &&& width.mask) src with h | h
  · rw [h]
  · rw [h, OpWidth.and_mask_and_mask]

theorem ConstantsHold.substitute_id (hI : ConstantsHold env c m) (src : SrcOperand) :
    readSrcOperand (m.read env) (c.substitute id src) = readSrcOperand (m.read env) src := by
  rcases hI.readSrcOperand_substitute id src with h | h <;> exact h

theorem ConstantsHold.imm_of_substitute (hI : ConstantsHold env c m) {src : SrcOperand}
    (h : c.substitute (· &&& width.mask) src = .imm v) :
    v &&& width.mask = readSrcOperand (m.read env) src &&& width.mask := by
  rw [← hI.substitute_mask width src, h]
  rfl

theorem ConstantsHold.imm_of_substitute_id (hI : ConstantsHold env c m) {src : SrcOperand}
    (h : c.substitute id src = .imm v) : v = readSrcOperand (m.read env) src := by
  rw [← hI.substitute_id src, h]
  rfl

/-- A result that the pass computes from two operands, in terms of their values. -/
theorem ConstantsHold.foldAlu_eq (hI : ConstantsHold env c m) {alu : Word → Word → Word}
    {src1 : VReg} {src2 : SrcOperand} (h : OpKind.foldAlu c alu src1 src2 width = some v) :
    trackable width = true ∧ v = alu (m.read env src1 &&& width.mask)
      (readSrcOperand (m.read env) src2 &&& width.mask) &&& width.mask := by
  simp only [OpKind.foldAlu] at h
  cases h1 : c src1 with
  | none => simp [h1] at h
  | some v1 =>
    cases h2 : c.substitute (· &&& width.mask) src2 with
    | imm v2 =>
      cases hw : trackable width with
      | false => simp [h1, h2, hw] at h
      | true =>
        simp only [h1, h2, hw, if_true, Option.some.injEq] at h
        rw [hI src1 v1 h1, ← hI.imm_of_substitute h2]
        exact ⟨rfl, h.symm⟩
    | _ => simp [h1, h2] at h

/-- The checksum that the pass computes is the one the operation stores. -/
theorem ConstantsHold.foldedCrc_eq (hI : ConstantsHold env c m) {crc data : VReg}
    {dataWidth : OpWidth} (h : OpKind.foldedCrc c crc data dataWidth = some v) :
    v = (Interpret.crc32c ((m.read env crc).setWidth 32) (m.read env data)
      dataWidth).setWidth 64 := by
  cases hcrc : c crc with
  | none => simp [OpKind.foldedCrc, hcrc] at h
  | some x =>
    cases hdata : c data with
    | none => simp [OpKind.foldedCrc, hcrc, hdata] at h
    | some y =>
      simp only [OpKind.foldedCrc, hcrc, hdata, Option.map_eq_some_iff] at h
      obtain ⟨value, hvalue, rfl⟩ := h
      rw [hI crc x hcrc, hI data y hdata, ConstProp.crc32c_eq hvalue]

end Table

/-- Bits above the width of a second operand are not seen by any flag. -/
theorem produces_congr_right {l r r' : Word} (res : Word)
    (h : r &&& width.mask = r' &&& width.mask) :
    (LazyFlags.add l r res width).produces = (LazyFlags.add l r' res width).produces ∧
      (LazyFlags.sub l r res width).produces = (LazyFlags.sub l r' res width).produces := by
  have hunder {k : Word} (hk : width.mask &&& k = k) (x : Word) :
      x &&& k = x &&& width.mask &&& k := by
    rw [BitVec.and_assoc, hk]
  have hsign : r &&& width.signBit = r' &&& width.signBit := by
    have hk : width.mask &&& width.signBit = width.signBit := by cases width <;> rfl
    rw [hunder hk r, hunder hk r', h]
  have hnibble : (l ^^^ r ^^^ res) &&& 16#64 = (l ^^^ r' ^^^ res) &&& 16#64 := by
    have hk : width.mask &&& 16#64 = 16#64 := by cases width <;> rfl
    have hr : r &&& 16#64 = r' &&& 16#64 := by rw [hunder hk r, hunder hk r', h]
    have hxor (x y : Word) : (x ^^^ y) &&& 16#64 = (x &&& 16#64) ^^^ (y &&& 16#64) := by
      refine BitVec.eq_of_getLsbD_eq fun i _ => ?_
      rw [BitVec.getLsbD_and, BitVec.getLsbD_xor, BitVec.getLsbD_xor, BitVec.getLsbD_and,
        BitVec.getLsbD_and, Bool.and_xor_distrib_right]
    rw [hxor, hxor, hxor, hxor, hr]
  constructor
  · funext f
    cases f <;> simp [LazyFlags.produces, LazyFlags.add, LazyFlags.materializeCf,
      LazyFlags.materializeZf, LazyFlags.materializeSf, LazyFlags.materializeOf,
      LazyFlags.materializePf, LazyFlags.materializeAf, LazyFlags.signOf, hsign, hnibble]
  · funext f
    cases f <;> simp [LazyFlags.produces, LazyFlags.sub, LazyFlags.materializeCf,
      LazyFlags.materializeZf, LazyFlags.materializeSf, LazyFlags.materializeOf,
      LazyFlags.materializePf, LazyFlags.materializeAf, LazyFlags.signOf, hsign, hnibble, h]

/-- Bits of the operands above the width do not reach the result. -/
theorem arithResult_congr {a a' b b' : Word} (kind : ArithKind) (cf : Word)
    (ha : a &&& width.mask = a' &&& width.mask) (hb : b &&& width.mask = b' &&& width.mask) :
    Interpret.arithResult kind a b cf &&& width.mask =
      Interpret.arithResult kind a' b' cf &&& width.mask := by
  rw [OpWidth.and_mask_inj] at ha hb ⊢
  have hw := width.wordBits_le
  cases kind <;>
    simp only [Interpret.arithResult, BitVec.sub_eq_add_neg, BitVec.setWidth_add _ _ hw,
      BitVec.setWidth_neg_of_le hw, ha, hb]

theorem logicResult_congr {a a' b b' : Word} (kind : LogicKind)
    (ha : a &&& width.mask = a' &&& width.mask) (hb : b &&& width.mask = b' &&& width.mask) :
    Interpret.logicResult kind a b &&& width.mask =
      Interpret.logicResult kind a' b' &&& width.mask := by
  rw [OpWidth.and_mask_inj] at ha hb ⊢
  have hw := width.wordBits_le
  cases kind <;>
    simp only [Interpret.logicResult, BitVec.setWidth_and, BitVec.setWidth_or,
      BitVec.setWidth_xor, BitVec.setWidth_not hw, ha, hb]

/-- Effects of operations that complete and differ at most in the bits of a pending record that
no flag sees. -/
structure Effect.Alike (s : FlagState) (eff eff' : Effect) : Prop where
  writes : eff.writes = eff'.writes
  completes : eff.exit = none
  completes' : eff'.exit = none
  flags : (eff.flags.apply s).Same (eff'.flags.apply s)

theorem arith_alike {kind : ArithKind} (hkind : kind = .add ∨ kind = .sub) {b b' : Word}
    (h : b &&& width.mask = b' &&& width.mask) (s : FlagState) (dst : VReg) (a : Word)
    (carry : Bool) (flags : FlagUpdate) :
    Effect.Alike s (Interpret.arith kind dst a b carry width flags)
      (Interpret.arith kind dst a b' carry width flags) := by
  have hresult := arithResult_congr kind (if carry then 1 else 0) (Eq.refl (a &&& width.mask)) h
  have hsame {lazy lazy' : LazyFlags} (hrec : lazy.produces = lazy'.produces) :
      ((FlagAct.onUpdate flags (.setLazy lazy)).apply s).Same
        ((FlagAct.onUpdate flags (.setLazy lazy')).apply s) := by
    cases hany : flags.updatesAny with
    | true => simpa [FlagAct.onUpdate, hany] using FlagAct.setLazy_same hrec (.refl s)
    | false => simpa [FlagAct.onUpdate, hany] using .refl _
  refine ⟨congrArg (fun r => [RegWrite.toGpr dst width r]) hresult, rfl, rfl, hsame ?_⟩
  rcases hkind with rfl | rfl
  · exact hresult ▸ (produces_congr_right _ h).1
  · exact hresult ▸ (produces_congr_right _ h).2

theorem logic_alike {b b' : Word} (h : b &&& width.mask = b' &&& width.mask) (s : FlagState)
    (kind : LogicKind) (dst : VReg) (a : Word) (flags : FlagUpdate) :
    Effect.Alike s (Interpret.logic kind dst a b width flags)
      (Interpret.logic kind dst a b' width flags) := by
  have heq : Interpret.logic kind dst a b width flags =
      Interpret.logic kind dst a b' width flags := by
    simp only [Interpret.logic, logicResult_congr kind (Eq.refl (a &&& width.mask)) h]
  exact ⟨by rw [heq], rfl, rfl, heq ▸ .refl _⟩

section Step

variable [SmirMemory μ] {env : Env} {c : Constants} {m m' : Machine μ}

omit [SmirMemory μ] in
theorem rel_of_eq {o p : Outcome (Machine μ) ExitReason} (h : o = p) :
    Outcome.Rel Machine.Same Machine.Same o p :=
  .of_eq Machine.Same.refl Machine.Same.refl h

theorem rel_of_alike {op op' : SmirOp μ} {eff eff' : Effect}
    (h : eval env op (m.inputs env) = (m.inputs env).done eff)
    (h' : eval env op' (m.inputs env) = (m.inputs env).done eff')
    (halike : eff.Alike m.flags eff') :
    Outcome.Rel Machine.Same Machine.Same (exec env op m) (exec env op' m) := by
  simp only [exec, h, h', Inputs.done, Evaluated.finish, halike.completes, halike.completes']
  exact .next ⟨congrArg (applyWrites env.arch · m.regs) halike.writes, rfl, rfl, halike.flags⟩

/-- Replacing operands by their values does not change what an operation does. -/
theorem exec_withConstants (hI : ConstantsHold env c m) (op : SmirOp μ) :
    Outcome.Rel Machine.Same Machine.Same (exec env op m)
      (exec env { op with kind := op.kind.withConstants c } m) := by
  obtain ⟨pc, kind, hint⟩ := op
  cases kind
  case mov dst src width =>
    refine rel_of_eq ?_
    simp only [OpKind.withConstants, exec_mov]
    exact congrArg _ (Machine.moveTo_congr (hI.substitute_mask width src).symm)
  case arith kind dst src1 src2 width flags =>
    have hmask := (hI.substitute_mask width src2).symm
    cases kind with
    | add => exact rel_of_alike rfl rfl (arith_alike (.inl rfl) hmask _ dst _ _ flags)
    | sub => exact rel_of_alike rfl rfl (arith_alike (.inr rfl) hmask _ dst _ _ flags)
    | _ => exact rel_of_eq rfl
  case logic kind dst src1 src2 width flags =>
    have hmask := (hI.substitute_mask width src2).symm
    cases kind with
    | andNot => exact rel_of_eq rfl
    | _ => exact rel_of_alike rfl rfl (logic_alike hmask _ _ dst _ flags)
  case shift kind dst src amount width flags =>
    have hid := hI.substitute_id amount
    refine rel_of_eq ?_
    simp only [OpKind.withConstants, exec, eval, Machine.inputs, hid]
    rfl
  case armRegShift dst src amount sh width flags =>
    have hid := hI.substitute_id amount
    refine rel_of_eq ?_
    simp only [OpKind.withConstants, exec, eval, Machine.inputs, hid]
    rfl
  case crc32C dst crc data dataWidth =>
    refine rel_of_eq ?_
    cases hcrc : OpKind.foldedCrc c crc data dataWidth with
    | none => simp only [OpKind.withConstants, hcrc]
    | some v =>
      simp only [OpKind.withConstants, hcrc, exec_mov]
      rw [hI.foldedCrc_eq hcrc]
      refine (exec_of_writes_one rfl rfl rfl rfl).trans (congrArg _ ?_)
      have hwide (x : Word) : x &&& OpWidth.mask .w64 = x := OpWidth.and_mask_of_wide (by decide) x
      rw [← hwide (BitVec.setWidth 64 _)]
      exact Machine.toGpr_eq_moveTo env m dst .w64 _
  all_goals exact rel_of_eq rfl

/-- The only effect of an operation on the registers is that `dst` is given a value as a
whole. -/
def Stores (env : Env) (op : SmirOp μ) (m : Machine μ) (dst : VReg) (v : Word) : Prop :=
  ∃ (w : RegWrite) (eff : Effect), w.dst = dst ∧ (∀ old, w.merge old = v) ∧
    eval env op (m.inputs env) = (m.inputs env).done eff ∧ eff.exit = none ∧ eff.writes = [w]

omit [SmirMemory μ] in
theorem merge_toGpr_of_trackable (hw : trackable width = true) (dst : VReg) (v old : Word) :
    (RegWrite.toGpr dst width v).merge old = v := by
  have hsub : width.isSub = false := by cases width <;> first | rfl | cases hw
  simp only [RegWrite.toGpr, RegWrite.merge, hsub, Bool.and_false, Bool.false_eq_true, if_false]

/-- The pass computes the value that an operation stores. -/
theorem ConstantsHold.stores (hI : ConstantsHold env c m) {op : SmirOp μ}
    (hcount : op.kind.countsAgree env.sourceArch c = true) (h : op.kind.folded c = some v) :
    ∃ dst, op.kind.dests = [dst] ∧ Stores env op m dst v := by
  obtain ⟨pc, kind, hint⟩ := op
  cases kind
  case mov dst src width =>
    refine ⟨dst, rfl, ⟨dst, .part width, _⟩, _, rfl, fun old => ?_, rfl, rfl, rfl⟩
    cases hsrc : c.substitute (· &&& width.mask) src with
    | imm x =>
      simp only [OpKind.folded, hsrc, Option.ite_none_right_eq_some, Option.some.injEq] at h
      obtain ⟨hw, rfl⟩ := h
      rw [hI.imm_of_substitute hsrc, ← RegWrite.merge_toGpr_and_mask]
      exact merge_toGpr_of_trackable hw dst _ old
    | _ => simp [OpKind.folded, hsrc] at h
  case arith kind dst src1 src2 width flags =>
    refine ⟨dst, rfl, .toGpr dst width _, _, rfl, fun old => ?_, rfl, rfl, rfl⟩
    have hself (x : Word) := OpWidth.and_mask_and_mask x width
    cases kind with
    | add =>
      obtain ⟨hw, rfl⟩ := hI.foldAlu_eq h
      rw [merge_toGpr_of_trackable hw]
      exact (arithResult_congr .add _ (hself _) (hself _)).symm
    | sub =>
      obtain ⟨hw, rfl⟩ := hI.foldAlu_eq h
      rw [merge_toGpr_of_trackable hw]
      exact (arithResult_congr .sub _ (hself _) (hself _)).symm
    | _ => cases h
  case logic kind dst src1 src2 width flags =>
    refine ⟨dst, rfl, .toGpr dst width _, _, rfl, fun old => ?_, rfl, rfl, rfl⟩
    have hself (x : Word) := OpWidth.and_mask_and_mask x width
    have hfold (k : LogicKind)
        (hk : OpKind.foldAlu c (Interpret.logicResult k) src1 src2 width = some v) :
        (RegWrite.toGpr dst width (Interpret.logicResult k (m.read env src1)
          (readSrcOperand (m.read env) src2) &&& width.mask)).merge old = v := by
      obtain ⟨hw, rfl⟩ := hI.foldAlu_eq hk
      rw [merge_toGpr_of_trackable hw]
      exact (logicResult_congr k (hself _) (hself _)).symm
    cases kind with
    | and => exact hfold .and h
    | or => exact hfold .or h
    | xor => exact hfold .xor h
    | andNot => cases h
  case shift kind dst src amount width flags =>
    refine ⟨dst, rfl, .toGpr dst width _, _, rfl, fun old => ?_, rfl, rfl,
      Interpret.shift_writes kind env.sourceArch dst _ _ width flags⟩
    cases hsrc : c src with
    | none => simp [OpKind.folded, hsrc] at h
    | some x =>
      cases hamount : c.substitute id amount with
      | imm a =>
        simp only [OpKind.folded, hsrc, hamount, Option.ite_none_right_eq_some,
          Option.some.injEq] at h
        obtain ⟨hw, rfl⟩ := h
        simp only [OpKind.countsAgree, hsrc, hamount, hw, Bool.not_true, Bool.false_or,
          beq_iff_eq] at hcount
        rw [merge_toGpr_of_trackable hw, ConstProp.foldShift_eq hw kind hcount,
          hI.imm_of_substitute_id hamount, ← hI src x hsrc]
        rfl
      | _ => simp [OpKind.folded, hsrc, hamount] at h
  case armRegShift dst src amount sh width flags =>
    refine ⟨dst, rfl, .toGpr dst .w32 _, _, rfl, fun old => ?_, rfl, rfl, rfl⟩
    cases hsrc : c src with
    | none => simp [OpKind.folded, hsrc] at h
    | some x =>
      cases hamount : c.substitute id amount with
      | imm a =>
        simp only [OpKind.folded, hsrc, hamount, Option.ite_none_right_eq_some,
          Option.map_eq_some_iff] at h
        obtain ⟨-, out, hout, rfl⟩ := h
        rw [merge_toGpr_of_trackable rfl, ConstProp.foldArmRegShift_eq _ hout,
          hI.imm_of_substitute_id hamount, ← hI src x hsrc]
        rfl
      | _ => simp [OpKind.folded, hsrc, hamount] at h
  case crc32C dst crc data dataWidth =>
    refine ⟨dst, rfl, .toGpr dst .w64 _, _, rfl, fun old => ?_, rfl, rfl, rfl⟩
    rw [merge_toGpr_of_trackable rfl]
    exact (hI.foldedCrc_eq h).symm
  all_goals cases h

end Step

/-! ## Runs -/

section Correctness

variable {env : Env} {c : Constants} {op : SmirOp μ} {m m' : Machine μ}

/-- A register reads as `v` once `v` has been written to it. -/
def keepsValue (arch : Arch) (r : VReg) (v : Word) : Bool :=
  match slot arch r with
  | .const value => v == value
  | .cell .. => storeMask arch r != 0 && v &&& storeMask arch r == v

theorem read_write_of_keepsValue {arch : Arch} {r : VReg} (h : keepsValue arch r v = true)
    (s : RegFile) : (s.write arch r v).read arch r = v := by
  cases hr : slot arch r with
  | const value =>
    simp only [keepsValue, hr, beq_iff_eq] at h
    simp [RegFile.read, hr, h]
  | cell cell view =>
    simp only [keepsValue, hr, Bool.and_eq_true, bne_iff_ne, beq_iff_eq] at h
    rw [RegFile.read_write_of_storeMask_ne h.1, h.2]

/-- What an operation must satisfy for the table to stay right. -/
structure KeepsConstants (env : Env) (c : Constants) (op : SmirOp μ) : Prop where
  counts : op.kind.countsAgree env.sourceArch c = true
  stored : ∀ v, op.kind.folded c = some v → ∀ d ∈ op.kind.dests, keepsValue env.arch d v = true
  spared : ∀ r, c r ≠ none → r ∉ op.kind.dests → op.kind.spares env r = true

/-- A block whose operations all keep the table right. -/
def ConstantsKept (env : Env) (ops : List (SmirOp μ)) : Prop :=
  Throughout constStep (fun _ (g : Unit) _ => g) (fun c _ op => KeepsConstants env c op)
    (fun _ => none) () ops

variable [SmirMemory μ]

/-- The pass preserves the run from a state, and at every operation of the run each constant in
the table is the value that its register holds. -/
def PropagatesConstants (env : Env) (ops : List (SmirOp μ)) (m : Machine μ) : Prop :=
  Outcome.Rel Machine.Same Machine.Same (runOps env ops m)
      (runOps env (constantPropagation ops).1 m) ∧
    AlongWith (exec env) constStep (fun c _ m => ConstantsHold env c m) (fun _ => none) ops m

theorem Stores.read_exec {dst : VReg} (h : Stores env op m dst v)
    (hkeep : keepsValue env.arch dst v = true) (hexec : exec env op m = .next m') :
    m'.read env dst = v := by
  obtain ⟨w, eff, rfl, hmerge, heval, hexit, hwrites⟩ := h
  simp only [exec, heval, Inputs.done, Evaluated.finish, hexit] at hexec
  obtain rfl := Outcome.next.inj hexec
  have hregs : (m.commit env m.mem eff).regs = m.regs.write env.arch w.dst v := by
    simp only [Machine.commit, hwrites, applyWrites, List.foldl_cons, List.foldl_nil,
      RegWrite.apply, hmerge]
  exact (congrArg (RegFile.read env.arch · w.dst) hregs).trans
    (read_write_of_keepsValue hkeep m.regs)

theorem ConstantsHold.next (hI : ConstantsHold env c m) (hkeep : KeepsConstants env c op)
    (hexec : exec env op m = .next m') : ConstantsHold env (constStep c op).2 m' := by
  intro r v hr
  simp only [constStep, Constants.update] at hr
  by_cases hd : r ∈ op.kind.dests
  · rw [if_pos hd] at hr
    obtain ⟨dst, hdests, hstores⟩ := hI.stores hkeep.counts hr
    obtain rfl : r = dst := by simpa [hdests] using hd
    exact hstores.read_exec (hkeep.stored v hr r hd) hexec
  · rw [if_neg hd] at hr
    have hspared := hkeep.spared r (by simp [hr]) hd
    rw [read_exec_of_spares hspared hexec]
    exact hI r v hr

/-- Constant propagation preserves every run of a block that keeps the table right. -/
theorem constantPropagation_propagatesConstants (env : Env) {ops : List (SmirOp μ)}
    (h : ConstantsKept env ops) (m : Machine μ) : PropagatesConstants env ops m := by
  have hhold : AlongWith (exec env) constStep (fun c _ m => ConstantsHold env c m)
      (fun _ => none) ops m := by
    refine alongWith_of_invariant (P := fun _ _ => True) (fun c _ m => ConstantsHold env c m)
      ?_ ?_ ?_ h (along_of_forall (fun _ _ => trivial) ops m)
    · intro c _ op m hI _ _
      exact hI
    · intro c _ op m m' hI hC _ hexec
      exact hI.next hC hexec
    · intro r v hr
      cases hr
  refine ⟨runSeq_rewriteSeq_rel Machine.Same.trans (fun a s s' => exec_same a) ?_ (.refl m), hhold⟩
  exact hhold.imp fun c op m hI => exec_withConstants hI op

end Correctness

section Blocks

/-- A constant that is shifted and added. -/
def scaledConstant : List (SmirOp FlatMemory) :=
  [⟨0, .mov .rax (.imm 5) .w32, false⟩,
    ⟨0, .shift .shl .rax .rax (.imm 4) .w32 .all, false⟩,
    ⟨0, .add .rcx .rcx (.reg .rax) .w64 .all, false⟩]

theorem scaledConstant_propagatesConstants :
    ConstantsKept ⟨.x86, .x86_64, {}⟩ scaledConstant ∧
      PropagatesConstants ⟨.x86, .x86_64, {}⟩ scaledConstant .blank := by
  have hkept : ConstantsKept ⟨.x86, .x86_64, {}⟩ scaledConstant := by
    refine ⟨⟨by decide, ?_, ?_⟩, ⟨by decide, ?_, ?_⟩, ⟨by decide, ?_, ?_⟩, trivial⟩
    · rintro v ⟨⟩
      decide
    · intro r hr
      exact absurd rfl hr
    · rintro v ⟨⟩
      decide
    · intro r hr hd
      exact absurd (if_neg hd) hr
    · rintro v ⟨⟩
    · intro r hr _
      by_cases hrax : r = .rax
      · subst hrax
        decide
      · have hne : r ∉ [VReg.rax] := by simpa using hrax
        exact absurd ((if_neg hne).trans (if_neg hne)) hr
  exact ⟨hkept, constantPropagation_propagatesConstants _ hkept _⟩

/-- An x86 shift by 33 at 32 bits, which shifts by one. -/
def shiftedFar : List (SmirOp FlatMemory) :=
  [⟨0, .mov .rax (.imm 1) .w32, false⟩,
    ⟨0, .shift .shl .rax .rax (.imm 33) .w32 .none, false⟩,
    ⟨0, .mov .rcx (.reg .rax) .w64, false⟩]

/-- The pass takes the result to be zero, where the interpreter computes two. -/
theorem shiftedFar_changes :
    ¬ PropagatesConstants ⟨.x86, .x86_64, {}⟩ shiftedFar .blank := by
  rintro ⟨hrun, -⟩
  have hread := congrArg (RegFile.read .x86 · .rcx) hrun.state.regs
  revert hread
  decide

end Blocks

end Rax.Smir

import Rax.Arm.ThumbDecoder
import Rax.CortexM.Execute
import Rax.Lib.SignedField

/-!
# Branches and calls of the Cortex-M against the shared decoder

Where a branch or a call continues, and what it leaves in LR, by the offset that the Thumb decoder
gives for the same encoding. The offsets of the short forms, of B.W and of BL agree for every
encoding. That of B<cond>.W agrees only where S and J2 are set. BLX leaves its own address in LR.
-/

namespace Rax.CortexM

open Rax.Arm (ThumbInsn)
open Rax.Arm.ThumbDecoder

/-! ## Fields of a wide encoding -/

/-- A one-bit field as a number. -/
def ofBit (b : Bool) : BitVec 32 := if b then 1 else 0

theorem and_one_eq_ofBool {w : Nat} (x : BitVec w) (k : Nat) :
    (x >>> k) &&& 1#w = if x.getLsbD k then 1#w else 0#w := by
  refine BitVec.eq_of_getLsbD_eq fun i hi => ?_
  rw [BitVec.getLsbD_and, BitVec.getLsbD_ushiftRight, BitVec.getLsbD_one]
  by_cases h0 : i = 0
  · subst h0
    cases x.getLsbD k <;> simp [hi]
  · cases x.getLsbD k <;> simp [h0]

theorem bitField_eq (insn : BitVec 32) (pos : Nat) :
    bitField insn pos = ofBit (insn.getLsbD pos) := and_one_eq_ofBool insn pos

theorem bitOf_eq (hw : BitVec 16) (pos : Nat) : bitOf hw pos = ofBit (hw.getLsbD pos) := by
  rw [bitOf, and_one_eq_ofBool]
  cases hw.getLsbD pos <;> rfl

theorem getLsbD_hw1 (insn : BitVec 32) {k : Nat} (hk : k < 16) :
    (hw1 insn).getLsbD k = insn.getLsbD (16 + k) := by
  rw [hw1, BitVec.getLsbD_setWidth, BitVec.getLsbD_ushiftRight]
  simp [hk]

theorem getLsbD_hw2 (insn : BitVec 32) {k : Nat} (hk : k < 16) :
    (hw2 insn).getLsbD k = insn.getLsbD k := by
  rw [hw2, BitVec.getLsbD_setWidth]
  simp [hk]

theorem hw1_field (insn : BitVec 32) (k : Nat) (mask : BitVec 16) :
    ((hw1 insn >>> k) &&& mask).setWidth 32 = (insn >>> (16 + k)) &&& mask.setWidth 32 := by
  refine BitVec.eq_of_getLsbD_eq fun i hi => ?_
  simp only [hw1, BitVec.getLsbD_setWidth, BitVec.getLsbD_and, BitVec.getLsbD_ushiftRight, hi,
    decide_true, Bool.true_and, ← Nat.add_assoc]
  by_cases h16 : k + i < 16
  · simp [h16]
  · rw [BitVec.getLsbD_of_ge insn (16 + k + i) (by omega)]
    simp

theorem hw2_field (insn : BitVec 32) (k : Nat) (mask : BitVec 16)
    (hmask : mask.toNat < 2 ^ (16 - k)) :
    ((hw2 insn >>> k) &&& mask).setWidth 32 = (insn >>> k) &&& mask.setWidth 32 := by
  refine BitVec.eq_of_getLsbD_eq fun i hi => ?_
  simp only [hw2, BitVec.getLsbD_setWidth, BitVec.getLsbD_and, BitVec.getLsbD_ushiftRight, hi,
    decide_true, Bool.true_and]
  by_cases h16 : k + i < 16
  · simp [h16]
  · rw [getLsbD_of_toNat_lt hmask (by omega)]
    simp

theorem field_eq_iff {x v : BitVec 16} {y : BitVec 32} (h : x.setWidth 32 = y) :
    x = v ↔ y = v.setWidth 32 := by
  subst h
  constructor
  · rintro rfl
    rfl
  · intro h
    refine BitVec.eq_of_getLsbD_eq fun i hi => ?_
    have hbit := congrArg (BitVec.getLsbD · i) h
    simpa [BitVec.getLsbD_setWidth, show i < 32 by omega] using hbit

/-! ## Offsets -/

/-- The part of an offset that both sides take from the same two fields. -/
def offsetTail (insn mask : BitVec 32) : BitVec 32 :=
  (((insn >>> 16) &&& mask) <<< 12) ||| ((insn &&& 0x7FF) <<< 1)

/-- The upper bits of the offset of B<cond>.W, as the CPU makes them. -/
def condHead (s j1 j2 : Bool) : BitVec 32 :=
  (ofBit s <<< 20) ||| ((ofBit j2 ^^^ ~~~ofBit s) <<< 19) ||| ((ofBit j1 ^^^ ~~~ofBit s) <<< 18)

/-- The same bits in the decoder, before and after sign extension. -/
def condImmHead (s j1 j2 : Bool) : BitVec 32 :=
  (ofBit s <<< 20) ||| (ofBit j2 <<< 19) ||| (ofBit j1 <<< 18)

def condSignedHead (s j1 j2 : Bool) : BitVec 32 :=
  if s then condImmHead s j1 j2 ||| 0xFFE00000 else condImmHead s j1 j2

/-- The upper bits of the offset of B.W and BL. -/
def wideHead (s j1 j2 : Bool) : BitVec 32 :=
  (ofBit s <<< 24) ||| ((~~~(ofBit j1 ^^^ ofBit s) &&& 1) <<< 23) |||
    ((~~~(ofBit j2 ^^^ ofBit s) &&& 1) <<< 22)

theorem toNat_and_shiftLeft_lt (x mask : BitVec 32) {k n : Nat}
    (hmask : mask.toNat * 2 ^ k < 2 ^ n) (hn : n ≤ 32) : ((x &&& mask) <<< k).toNat < 2 ^ n := by
  have hand : (x &&& mask).toNat ≤ mask.toNat := by
    rw [BitVec.toNat_and]
    exact Nat.and_le_right
  have hmul : (x &&& mask).toNat * 2 ^ k ≤ mask.toNat * 2 ^ k := Nat.mul_le_mul_right _ hand
  have hpow : 2 ^ n ≤ 2 ^ 32 := Nat.pow_le_pow_right (by decide) hn
  rw [BitVec.toNat_shiftLeft, Nat.shiftLeft_eq, Nat.mod_eq_of_lt (by omega)]
  omega

theorem toNat_offsetTail_lt (insn mask : BitVec 32) {n : Nat} (hmask : mask.toNat * 2 ^ 12 < 2 ^ n)
    (h12 : 12 ≤ n) (hn : n ≤ 32) : (offsetTail insn mask).toNat < 2 ^ n := by
  rw [offsetTail, BitVec.toNat_or]
  refine Nat.or_lt_two_pow (toNat_and_shiftLeft_lt _ _ hmask hn) ?_
  have hpow : 2 ^ 12 ≤ 2 ^ n := Nat.pow_le_pow_right (by decide) h12
  exact Nat.lt_of_lt_of_le (toNat_and_shiftLeft_lt (n := 12) insn 0x7FF (by decide) (by decide)) hpow

theorem condOffset_eq (insn : BitVec 32) :
    condOffset insn =
      signField 11 (condHead (insn.getLsbD 26) (insn.getLsbD 13) (insn.getLsbD 11)) |||
        offsetTail insn 0x3F := by
  have htail := toNat_offsetTail_lt insn 0x3F (n := 18) (by decide) (by decide) (by decide)
  have hsmall : signField 11 (offsetTail insn 0x3F) = offsetTail insn 0x3F :=
    signField_of_lt (by decide) (Nat.lt_trans htail (by decide))
  rw [← hsmall, ← signField_or]
  simp only [condOffset, signField, bitField_eq, condHead, offsetTail, BitVec.or_assoc]

theorem wideOffset_eq (insn : BitVec 32) :
    wideOffset insn =
      signField 7 (wideHead (insn.getLsbD 26) (insn.getLsbD 13) (insn.getLsbD 11)) |||
        offsetTail insn 0x3FF := by
  have htail := toNat_offsetTail_lt insn 0x3FF (n := 22) (by decide) (by decide) (by decide)
  have hsmall : signField 7 (offsetTail insn 0x3FF) = offsetTail insn 0x3FF :=
    signField_of_lt (by decide) (Nat.lt_trans htail (by decide))
  rw [← hsmall, ← signField_or]
  simp only [wideOffset, signField, bitField_eq, wideHead, offsetTail, BitVec.or_assoc]

theorem condImm_eq (insn : BitVec 32) :
    condImm insn = condImmHead (insn.getLsbD 26) (insn.getLsbD 13) (insn.getLsbD 11) |||
      offsetTail insn 0x3F := by
  have hs : (hw1 insn).getLsbD 10 = insn.getLsbD 26 := getLsbD_hw1 insn (by decide)
  have h1 : (hw2 insn).getLsbD 13 = insn.getLsbD 13 := getLsbD_hw2 insn (by decide)
  have h2 : (hw2 insn).getLsbD 11 = insn.getLsbD 11 := getLsbD_hw2 insn (by decide)
  have h6 := hw1_field insn 0 0x3F
  have h11 := hw2_field insn 0 0x7FF (by decide)
  rw [BitVec.ushiftRight_zero] at h6 h11
  rw [condImm, bitOf_eq, bitOf_eq, bitOf_eq, hs, h1, h2, h6, h11, condImmHead, offsetTail]
  simp only [BitVec.or_assoc]
  rfl

theorem foldedBit_eq (insn : BitVec 32) {pos : Nat} (hpos : pos < 16) :
    foldedBit insn pos = ~~~(ofBit (insn.getLsbD pos) ^^^ ofBit (insn.getLsbD 26)) &&& 1 := by
  have hs : (hw1 insn).getLsbD 10 = insn.getLsbD 26 := getLsbD_hw1 insn (by decide)
  rw [foldedBit, and_one_eq_ofBool, and_one_eq_ofBool, hs, getLsbD_hw2 insn hpos]
  cases insn.getLsbD pos <;> cases insn.getLsbD 26 <;> rfl

theorem wideImm_eq (insn : BitVec 32) :
    wideImm insn = wideHead (insn.getLsbD 26) (insn.getLsbD 13) (insn.getLsbD 11) |||
      offsetTail insn 0x3FF := by
  have hs : (hw1 insn).getLsbD 10 = insn.getLsbD 26 := getLsbD_hw1 insn (by decide)
  have h10 := hw1_field insn 0 0x3FF
  have h11 := hw2_field insn 0 0x7FF (by decide)
  rw [BitVec.ushiftRight_zero] at h10 h11
  rw [wideImm, bitOf_eq, hs, foldedBit_eq insn (by decide), foldedBit_eq insn (by decide), h10, h11,
    wideHead, offsetTail]
  simp only [BitVec.or_assoc]
  rfl

theorem setWidth_signed (insn imm above : BitVec 32) :
    (signed insn imm above).setWidth 32 = if insn.getLsbD 26 then imm ||| above else imm := by
  have hs : (hw1 insn).getLsbD 10 = insn.getLsbD 26 := getLsbD_hw1 insn (by decide)
  have hwidth (x : BitVec 32) : (x.signExtend 64).setWidth 32 = x := by
    refine BitVec.eq_of_getLsbD_eq fun i hi => ?_
    rw [BitVec.getLsbD_setWidth, BitVec.getLsbD_signExtend]
    simp [hi, show i < 64 by omega]
  rw [signed, hwidth, show (1 : BitVec 16) = 1#16 from rfl, and_one_eq_ofBool, hs]
  cases insn.getLsbD 26 <;> rfl

theorem wideOffset_eq_signed (insn : BitVec 32) :
    wideOffset insn = (signed insn (wideImm insn) 0xFE000000).setWidth 32 := by
  rw [setWidth_signed, wideOffset_eq, wideImm_eq]
  cases insn.getLsbD 26 <;> cases insn.getLsbD 13 <;> cases insn.getLsbD 11
  case false.false.false => rfl
  case false.false.true => rfl
  case false.true.false => rfl
  case false.true.true => rfl
  all_goals
    rw [if_pos rfl, BitVec.or_assoc, BitVec.or_comm (offsetTail insn 0x3FF), ← BitVec.or_assoc]
    rfl

/-- Heads that differ give offsets that differ, since they have no bit in common with the tail. -/
theorem or_offsetTail_inj {insn x y : BitVec 32} (hx : x &&& 0x3FFFF = 0) (hy : y &&& 0x3FFFF = 0)
    (h : x ||| offsetTail insn 0x3F = y ||| offsetTail insn 0x3F) : x = y := by
  have htail := toNat_offsetTail_lt insn 0x3F (n := 18) (by decide) (by decide) (by decide)
  have hmask : ∀ i < 32, (0x3FFFF : BitVec 32).getLsbD i = decide (i < 18) := by decide
  refine BitVec.eq_of_getLsbD_eq fun i hi => ?_
  by_cases hlow : i < 18
  · have hxi := congrArg (BitVec.getLsbD · i) hx
    have hyi := congrArg (BitVec.getLsbD · i) hy
    simp only [BitVec.getLsbD_and, hmask i hi, hlow, decide_true, Bool.and_true] at hxi hyi
    rw [hxi, hyi]
  · have hi' := congrArg (BitVec.getLsbD · i) h
    simp only [BitVec.getLsbD_or, getLsbD_of_toNat_lt htail (Nat.le_of_not_lt hlow),
      Bool.or_false] at hi'
    exact hi'

theorem condSigned_eq (insn : BitVec 32) :
    (signed insn (condImm insn) 0xFFE00000).setWidth 32 =
      condSignedHead (insn.getLsbD 26) (insn.getLsbD 13) (insn.getLsbD 11) |||
        offsetTail insn 0x3F := by
  rw [setWidth_signed, condImm_eq, condSignedHead]
  split
  · rw [BitVec.or_assoc, BitVec.or_comm (offsetTail insn 0x3F), ← BitVec.or_assoc]
  · rfl

/-- B<cond>.W goes by the offset of the decoder where S and J2 are set. -/
theorem condOffset_eq_signed_iff (insn : BitVec 32) :
    condOffset insn = (signed insn (condImm insn) 0xFFE00000).setWidth 32 ↔
      insn.getLsbD 26 = true ∧ insn.getLsbD 11 = true := by
  have hhead : ∀ s j1 j2, signField 11 (condHead s j1 j2) = condSignedHead s j1 j2 ↔
      s = true ∧ j2 = true := by decide
  have hlow : ∀ s j1 j2, signField 11 (condHead s j1 j2) &&& 0x3FFFF = 0 ∧
      condSignedHead s j1 j2 &&& 0x3FFFF = 0 := by decide
  rw [condOffset_eq, condSigned_eq, ← hhead (insn.getLsbD 26) (insn.getLsbD 13)]
  constructor
  · exact or_offsetTail_inj (hlow _ _ _).1 (hlow _ _ _).2
  · intro h
    rw [h]

theorem and_lowMask16 (insn : BitVec 16) :
    insn &&& 0xFF = (insn.setWidth 8).setWidth 16 ∧
      insn &&& 0x7FF = (insn.setWidth 11).setWidth 16 := by
  have h8 : ∀ i < 16, (0xFF : BitVec 16).getLsbD i = decide (i < 8) := by decide
  have h11 : ∀ i < 16, (0x7FF : BitVec 16).getLsbD i = decide (i < 11) := by decide
  constructor
  · refine BitVec.eq_of_getLsbD_eq fun i hi => ?_
    rw [BitVec.getLsbD_and, h8 i hi, BitVec.getLsbD_setWidth, BitVec.getLsbD_setWidth]
    simp [hi, Bool.and_comm]
  · refine BitVec.eq_of_getLsbD_eq fun i hi => ?_
    rw [BitVec.getLsbD_and, h11 i hi, BitVec.getLsbD_setWidth, BitVec.getLsbD_setWidth]
    simp [hi, Bool.and_comm]

theorem shortCond_offset (insn : BitVec 16) :
    ((insn &&& 0xFF).setWidth 8).signExtend 32 <<< 1 =
      (if (insn &&& 0xFF).setWidth 64 &&& (1 <<< 7) ≠ 0 then
        ((insn &&& 0xFF).setWidth 64 ||| ~~~0xFF#64) <<< 1
      else (insn &&& 0xFF).setWidth 64 <<< 1).setWidth 32 := by
  have hall : ∀ x : BitVec 8, ((x.setWidth 16).setWidth 8).signExtend 32 <<< 1 =
      (if (x.setWidth 16).setWidth 64 &&& (1 <<< 7) ≠ 0 then
        ((x.setWidth 16).setWidth 64 ||| ~~~0xFF#64) <<< 1
      else (x.setWidth 16).setWidth 64 <<< 1).setWidth 32 := by decide +kernel
  rw [(and_lowMask16 insn).1]
  exact hall _

theorem short_offset (insn : BitVec 16) :
    ((insn &&& 0x7FF).setWidth 32 <<< 21).sshiftRight 20 =
      (if (insn &&& 0x7FF).setWidth 64 &&& (1 <<< 10) ≠ 0 then
        ((insn &&& 0x7FF).setWidth 64 ||| ~~~0x7FF#64) <<< 1
      else (insn &&& 0x7FF).setWidth 64 <<< 1).setWidth 32 := by
  have hall : ∀ x : BitVec 11, ((x.setWidth 16).setWidth 32 <<< 21).sshiftRight 20 =
      (if (x.setWidth 16).setWidth 64 &&& (1 <<< 10) ≠ 0 then
        ((x.setWidth 16).setWidth 64 ||| ~~~0x7FF#64) <<< 1
      else (x.setWidth 16).setWidth 64 <<< 1).setWidth 32 := by decide +kernel
  rw [(and_lowMask16 insn).2]
  exact hall _

/-! ## What a branch does -/

def Fetched.decode : Fetched → ThumbInsn
  | thumb16 insn => decode16bit insn
  | thumb32 insn => decode32bit insn

/-- Execution goes on at an address. -/
def ContinuesAt {μ ε : Type} (r : EStateM.Result (ExecError ε) (Cpu μ) CpuExit)
    (target : BitVec 32) : Prop := ∃ c', r = .ok .cont c' ∧ c'.pc = target

/-- The instruction BX LR. -/
def bxLr : Fetched := .thumb16 0x4770

/-- BX LR goes on at an address, whatever the rest of the state. -/
def ReturnsTo (lr target : BitVec 32) : Prop :=
  ∀ (μ ε : Type) [ArmMemory μ ε] (others : Others μ ε) (c : Cpu μ), c.lr = lr →
    ContinuesAt (executeInstruction others bxLr c) target

/-- A call leaves the address after it in LR, with bit 0 set, and returns there. -/
def Links {μ ε : Type} (r : EStateM.Result (ExecError ε) (Cpu μ) CpuExit) (after : BitVec 32) :
    Prop := ∀ exit c', r = .ok exit c' → c'.lr = after ||| 1 ∧ ReturnsTo c'.lr after

/-- The encoding at address `a`, under the flags of `xpsr`, does what the decoder says, whatever the
rest of the state. -/
def BranchesAsDecoded (f : Fetched) (a xpsr : BitVec 32) : Prop :=
  ∀ (μ ε : Type) [ArmMemory μ ε] (others : Others μ ε) (c : Cpu μ), c.pc = a → c.xpsr = xpsr →
    match f.decode with
    | .b offset => ContinuesAt (executeInstruction others f c) (a + 4 + offset.setWidth 32)
    | .bcc cond offset =>
      ContinuesAt (executeInstruction others f c)
        (if c.conditionPassed cond then a + 4 + offset.setWidth 32 else a + f.size)
    | .bl offset | .blxLabel offset =>
      ContinuesAt (executeInstruction others f c) (a + 4 + offset.setWidth 32) ∧
        Links (executeInstruction others f c) (a + f.size)
    | .blx rm =>
      ContinuesAt (executeInstruction others f c) (c.reg rm &&& ~~~1) ∧
        Links (executeInstruction others f c) (a + f.size)
    | _ => True

/-! ## What the CPU does -/

variable {insn : BitVec 32}

section Execution

variable {μ ε : Type} [ArmMemory μ ε] (others : Others μ ε) (c : Cpu μ)

theorem decode16bit_cases (insn : BitVec 16) :
    ((insn >>> 10).toNat = 0b010001 ∧ decode16bit insn = decodeSpecialDataBranch insn) ∨
      (0b110100 ≤ (insn >>> 10).toNat ∧ (insn >>> 10).toNat ≤ 0b110111 ∧
        decode16bit insn = decodeCondBranchSvc insn) ∨
      (0b111000 ≤ (insn >>> 10).toNat ∧ (insn >>> 10).toNat ≤ 0b111001 ∧
        decode16bit insn = decodeUncondBranch insn) ∨
      decode16bit insn = .other := by
  unfold decode16bit
  split
  all_goals simp [*]

theorem decodeSpecialDataBranch_cases (insn : BitVec 16) :
    (∃ rm, decodeSpecialDataBranch insn = .bx rm) ∨
      (∃ rm, decodeSpecialDataBranch insn = .blx rm) ∨ decodeSpecialDataBranch insn = .other := by
  unfold decodeSpecialDataBranch
  split
  all_goals simp

theorem decodeCondBranchSvc_cases (insn : BitVec 16) :
    (∃ imm, decodeCondBranchSvc insn = .udf imm) ∨ (∃ imm, decodeCondBranchSvc insn = .svc imm) ∨
      ∃ cond offset, decodeCondBranchSvc insn = .bcc cond offset := by
  rw [decodeCondBranchSvc]
  split
  · exact .inl ⟨_, rfl⟩
  · split
    · exact .inr (.inl ⟨_, rfl⟩)
    · exact .inr (.inr ⟨_, _, rfl⟩)

theorem executeInstruction_ok {f : Fetched} {exit : CpuExit} {c' : Cpu μ}
    (h : execute others f (c.goTo (c.pc + f.size)) = .ok exit c') :
    executeInstruction others f c = .ok exit c' := by
  rw [executeInstruction, h, restorePc]

theorem exec_uncond {insn : BitVec 16} {offset : BitVec 64}
    (hlow : 0b111000 ≤ (insn >>> 10).toNat) (hhigh : (insn >>> 10).toNat ≤ 0b111001)
    (hdecode : decodeUncondBranch insn = .b offset) :
    executeInstruction others (.thumb16 insn) c =
      .ok .cont (c.goTo (c.pc + 4 + offset.setWidth 32)) := by
  obtain rfl := ThumbInsn.b.inj hdecode
  refine executeInstruction_ok others c ?_
  have hgroup : executeThumb16 others insn = execUnconditionalBranch insn := by
    obtain h | h : (insn >>> 10).toNat = 0b111000 ∨ (insn >>> 10).toNat = 0b111001 := by omega
    · simp only [executeThumb16, h]
    · simp only [executeThumb16, h]
  change executeThumb16 others insn _ = _
  rw [hgroup, execUnconditionalBranch, short_offset]
  change EStateM.Result.ok CpuExit.cont ((c.goTo (c.pc + 2)).goTo (c.pc + 2 + 2 + _)) = _
  rw [BitVec.add_assoc c.pc 2 2]
  rfl

theorem exec_cond {insn : BitVec 16} {cond : Nat} {offset : BitVec 64}
    (hlow : 0b110100 ≤ (insn >>> 10).toNat) (hhigh : (insn >>> 10).toNat ≤ 0b110111)
    (hdecode : decodeCondBranchSvc insn = .bcc cond offset) :
    executeInstruction others (.thumb16 insn) c =
      .ok .cont (c.goTo
        (if c.conditionPassed cond then c.pc + 4 + offset.setWidth 32 else c.pc + 2)) := by
  refine executeInstruction_ok others c ?_
  have hgroup : executeThumb16 others insn = execConditionalBranch insn := by
    obtain h | h | h | h : (insn >>> 10).toNat = 0b110100 ∨ (insn >>> 10).toNat = 0b110101 ∨
      (insn >>> 10).toNat = 0b110110 ∨ (insn >>> 10).toNat = 0b110111 := by omega
    · simp only [executeThumb16, h]
    · simp only [executeThumb16, h]
    · simp only [executeThumb16, h]
    · simp only [executeThumb16, h]
  change executeThumb16 others insn _ = _
  rw [hgroup, execConditionalBranch, shortCond_offset]
  rw [decodeCondBranchSvc] at hdecode
  split at hdecode
  · cases hdecode
  · rename_i hudf
    rw [if_neg hudf]
    split at hdecode
    · cases hdecode
    · rename_i hsvc
      rw [if_neg hsvc]
      obtain ⟨rfl, rfl⟩ := ThumbInsn.bcc.inj hdecode
      change (if c.conditionPassed _ then _ else _) = _
      split
      · change EStateM.Result.ok CpuExit.cont ((c.goTo (c.pc + 2)).goTo (c.pc + 2 + 2 + _)) = _
        rw [BitVec.add_assoc c.pc 2 2]
        rfl
      · rfl

theorem toNat_field {w : Nat} (x mask : BitVec w) {k m : Nat} (hmask : mask.toNat = 2 ^ m - 1) :
    ((x >>> k) &&& mask).toNat = x.toNat / 2 ^ k % 2 ^ m := by
  rw [BitVec.toNat_and, BitVec.toNat_ushiftRight, hmask, Nat.and_two_pow_sub_one_eq_mod,
    Nat.shiftRight_eq_div_pow]

omit [ArmMemory μ ε] in
theorem conditionPassed_congr {μ' : Type} {c : Cpu μ} {c' : Cpu μ'} (h : c.xpsr = c'.xpsr)
    (cond : Nat) : c.conditionPassed cond = c'.conditionPassed cond := by
  simp only [Cpu.conditionPassed, Cpu.getZ, Cpu.getC, Cpu.getN, Cpu.getV, Cpu.flag, h]

theorem exec_bxLr :
    executeInstruction others bxLr c =
      restorePc c.pc (execBranchExchange c.lr (c.goTo (c.pc + 2))) := rfl

/-- BLX leaves its own address in LR. -/
theorem exec_blx {insn : BitVec 16} {rm : Nat} (hgroup : (insn >>> 10).toNat = 0b010001)
    (hdecode : decodeSpecialDataBranch insn = .blx rm) :
    rm < 16 ∧ executeInstruction others (.thumb16 insn) c =
      restorePc c.pc (execBranchExchange ((c.goTo (c.pc + 2)).reg rm)
        { c.goTo (c.pc + 2) with lr := c.pc ||| 1 }) := by
  have hop := toNat_field insn 0x3 (k := 8) (m := 2) rfl
  have hlink := toNat_field insn 1 (k := 7) (m := 1) rfl
  have hfield := toNat_field insn 0xF (k := 6) (m := 4) rfl
  have hrm := toNat_field insn 0xF (k := 3) (m := 4) rfl
  unfold decodeSpecialDataBranch at hdecode
  have h14 : 14 ≤ ((insn >>> 6) &&& 0xF).toNat ∧ rm = ((insn >>> 3) &&& 0xF).toNat := by
    split at hdecode
    case h_3 h => exact ⟨by omega, (ThumbInsn.blx.inj hdecode).symm⟩
    case h_4 h => exact ⟨by omega, (ThumbInsn.blx.inj hdecode).symm⟩
    all_goals cases hdecode
  obtain ⟨hblx, rfl⟩ := h14
  have h3 : ((insn >>> 8) &&& 0x3).toNat = 3 := by omega
  have h1 : (insn >>> 7) &&& 1 ≠ 0 := by
    intro h0
    rw [h0] at hlink
    have hzero : (0 : BitVec 16).toNat = 0 := rfl
    omega
  refine ⟨by omega, ?_⟩
  have hspecial : executeThumb16 others insn = execSpecialData insn := by
    simp only [executeThumb16, hgroup]
  change restorePc c.pc (executeThumb16 others insn (c.goTo (c.pc + 2))) = _
  rw [hspecial]
  have hself : (c.goTo (c.pc + 2)).pc - 2 = c.pc := BitVec.add_sub_cancel c.pc 2
  simp only [execSpecialData, h3, if_pos h1, regAt16, hself]

/-- The kinds of wide branches, by bits 14 and 12 of the second halfword. -/
theorem wide_kind (insn : BitVec 32) :
    (insn >>> 12) &&& 0x5#32 = ofBit (insn.getLsbD 12) ||| (ofBit (insn.getLsbD 14) <<< 2) ∧
      (insn >>> 12) &&& 0x4#32 = ofBit (insn.getLsbD 14) <<< 2 := by
  have h5 : ∀ i < 32, (0x5#32).getLsbD i = (decide (i = 0) || decide (i = 2)) := by decide
  have h4 : ∀ i < 32, (0x4#32).getLsbD i = decide (i = 2) := by decide
  have hbit (b : Bool) : ∀ i < 32, (ofBit b).getLsbD i = (b && decide (i = 0)) := by
    cases b <;> decide
  have hshift (b : Bool) : ∀ i < 32, (ofBit b <<< 2).getLsbD i = (b && decide (i = 2)) := by
    cases b <;> decide
  constructor
  · refine BitVec.eq_of_getLsbD_eq fun i hi => ?_
    rw [BitVec.getLsbD_and, BitVec.getLsbD_or, h5 i hi, hbit _ i hi, hshift _ i hi,
      BitVec.getLsbD_ushiftRight]
    by_cases h0 : i = 0
    · subst h0
      simp
    · by_cases h2 : i = 2
      · subst h2
        simp
      · simp [h0, h2]
  · refine BitVec.eq_of_getLsbD_eq fun i hi => ?_
    rw [BitVec.getLsbD_and, h4 i hi, hshift _ i hi, BitVec.getLsbD_ushiftRight]
    by_cases h2 : i = 2
    · subst h2
      simp
    · simp [h2]

/-- The decoder's view of a wide encoding, with the tests of the CPU. -/
theorem decode32bit_eq (insn : BitVec 32) :
    decode32bit insn =
      if (insn >>> 27) &&& 0x3 = 0b10 ∧ (insn >>> 15) &&& 1 ≠ 0 then
        if (insn >>> 12) &&& 0x5 = 0 ∧ (insn >>> 20) &&& 0x38 ≠ 0x38 then
          .bcc ((insn >>> 22) &&& 0xF).toNat (signed insn (condImm insn) 0xFFE00000)
        else if insn.getLsbD 14 = true then
          if insn.getLsbD 12 = true then .bl (signed insn (wideImm insn) 0xFE000000)
          else .blxLabel (signed insn (wideImm insn) 0xFE000000)
        else if insn.getLsbD 12 = true then .b (signed insn (wideImm insn) 0xFE000000)
        else .other
      else .other := by
  have hgroup := field_eq_iff (v := 0b10) (hw1_field insn 11 0x3)
  have hop := field_eq_iff (v := 0) (hw2_field insn 15 1 (by decide))
  have h5 := field_eq_iff (v := 0) (hw2_field insn 12 0x5 (by decide))
  have h38 := field_eq_iff (v := 0x38) (hw1_field insn 4 0x38)
  have hcond : ((hw1 insn >>> 6) &&& 0xF).toNat = ((insn >>> 22) &&& 0xF).toNat := by
    have h := congrArg BitVec.toNat (hw1_field insn 6 0xF)
    rw [BitVec.toNat_setWidth_of_le (by decide)] at h
    exact h
  obtain ⟨hkind5, hkind4⟩ := wide_kind insn
  have hwide : (hw2 insn >>> 12) &&& 0x4 = 0x4 ↔ insn.getLsbD 14 = true := by
    refine (field_eq_iff (hw2_field insn 12 0x4 (by decide))).trans ?_
    change (insn >>> 12) &&& 0x4#32 = 0x4#32 ↔ _
    rw [hkind4]
    cases insn.getLsbD 14 <;> decide
  have hplain : (hw2 insn >>> 12) &&& 0x5 = 0x1 ↔
      insn.getLsbD 12 = true ∧ insn.getLsbD 14 = false := by
    refine (field_eq_iff (hw2_field insn 12 0x5 (by decide))).trans ?_
    change (insn >>> 12) &&& 0x5#32 = 0x1#32 ↔ _
    rw [hkind5]
    cases insn.getLsbD 14 <;> cases insn.getLsbD 12 <;> decide
  have hlink : (hw2 insn >>> 14) &&& 1 = 1 ↔ insn.getLsbD 14 = true := by
    rw [← getLsbD_hw2 insn (by decide), show (1 : BitVec 16) = 1#16 from rfl, and_one_eq_ofBool]
    cases (hw2 insn).getLsbD 14 <;> decide
  have hexchange : (hw2 insn >>> 12) &&& 1 = 0 ↔ insn.getLsbD 12 = false := by
    rw [← getLsbD_hw2 insn (by decide), show (1 : BitVec 16) = 1#16 from rfl, and_one_eq_ofBool]
    cases (hw2 insn).getLsbD 12 <;> decide
  rw [decode32bit, decode32bitBranchMisc, hcond]
  refine if_congr (and_congr hgroup (not_congr hop)) ?_ rfl
  refine if_congr (and_congr h5 (not_congr h38)) rfl ?_
  simp only [hwide, hplain, hlink, hexchange]
  cases insn.getLsbD 14 <;> cases insn.getLsbD 12 <;> rfl

theorem executeThumb32_branch (hgroup : (insn >>> 27) &&& 0x3 = 0b10)
    (hop : (insn >>> 15) &&& 1 ≠ 0) : executeThumb32 others insn = execBranchesMisc32 insn := by
  simp only [executeThumb32, hgroup, if_neg hop]
  rfl

theorem exec_wideCond (hgroup : (insn >>> 27) &&& 0x3 = 0b10) (hop : (insn >>> 15) &&& 1 ≠ 0)
    (hcond : (insn >>> 12) &&& 0x5 = 0 ∧ (insn >>> 20) &&& 0x38 ≠ 0x38) :
    executeInstruction others (.thumb32 insn) c =
      .ok .cont (c.goTo
        (if c.conditionPassed ((insn >>> 22) &&& 0xF).toNat then c.pc + 4 + condOffset insn
        else c.pc + 4)) := by
  refine executeInstruction_ok others c ?_
  change executeThumb32 others insn _ = _
  rw [executeThumb32_branch others hgroup hop, execBranchesMisc32, if_pos hcond]
  change (if c.conditionPassed _ then _ else _) = _
  split <;> rfl

theorem exec_wide (hgroup : (insn >>> 27) &&& 0x3 = 0b10) (hop : (insn >>> 15) &&& 1 ≠ 0)
    (hcond : ¬((insn >>> 12) &&& 0x5 = 0 ∧ (insn >>> 20) &&& 0x38 ≠ 0x38)) :
    executeInstruction others (.thumb32 insn) c =
      if insn.getLsbD 12 = true then
        .ok .cont ({ c with lr := if insn.getLsbD 14 then (c.pc + 4) ||| 1 else c.lr }.goTo
          (c.pc + 4 + wideOffset insn))
      else .error (.unimplemented "32-bit branch/misc") c := by
  change restorePc c.pc (executeThumb32 others insn (c.goTo (c.pc + 4))) = _
  rw [executeThumb32_branch others hgroup hop, execBranchesMisc32, if_neg hcond]
  have hkind := (wide_kind insn).1
  change (insn >>> 12) &&& 0x5 = _ at hkind
  rw [hkind]
  cases insn.getLsbD 14 <;> cases insn.getLsbD 12 <;> rfl

end Execution

/-! ## Where they agree -/

/-- A memory without any word. -/
structure NoMemory where
  deriving Inhabited

instance : ArmMemory NoMemory Unit where
  readU32 _ _ := .error ()
  writeU32 m _ _ := (.error (), m)

/-- A CPU with given flags, counter and registers, and no memory. -/
def bare (pc xpsr : BitVec 32) (value : Nat → BitVec 32) : Cpu NoMemory :=
  { (probe value false : Cpu NoMemory) with pc, xpsr }

def noOthers : Others NoMemory Unit := ⟨fun _ c => .ok .cont c, fun _ c => .ok .cont c⟩

theorem execExceptionReturn_bare (excReturn : BitVec 32) (c : Cpu NoMemory) :
    execExceptionReturn excReturn c = .error (.memory ()) c := rfl

theorem returnsTo_iff (lr target : BitVec 32) :
    ReturnsTo lr target ↔ lr < 0xF0000000#32 ∧ target = lr &&& ~~~1 := by
  constructor
  · intro h
    obtain ⟨c', hrun, hpc⟩ :=
      h NoMemory Unit noOthers { bare 0 0 (fun _ => 0) with lr } rfl
    rw [exec_bxLr] at hrun
    change restorePc _ (execBranchExchange lr _) = _ at hrun
    rw [execBranchExchange] at hrun
    split at hrun
    · rw [execExceptionReturn_bare] at hrun
      cases hrun
    · rename_i hlt
      cases hrun
      exact ⟨BitVec.not_le.mp hlt, hpc.symm⟩
  · rintro ⟨hlt, rfl⟩ μ ε _ others c rfl
    refine ⟨(c.goTo (c.pc + 2)).goTo (c.lr &&& ~~~1), ?_, rfl⟩
    rw [exec_bxLr, execBranchExchange, if_neg (BitVec.not_le.mpr hlt)]
    rfl

/-- Where an encoding at an address does what the decoder says, under given flags. -/
def AgreesFor (f : Fetched) (a xpsr : BitVec 32) : Prop :=
  match f, f.decode with
  | .thumb32 insn, .bcc cond _ =>
    (bare a xpsr fun _ => 0).conditionPassed cond = true →
      insn.getLsbD 26 = true ∧ insn.getLsbD 11 = true
  | _, .bl _ => a.getLsbD 0 = false ∧ (a + f.size) ||| 1 < 0xF0000000#32
  | _, .blx _ => False
  | _, .blxLabel _ => False
  | _, _ => True

/-- The address of a short call is not the address after it. -/
theorem or_one_ne_after (a : BitVec 32) : a ||| 1 ≠ (a + 2) ||| 1 := by
  intro h
  have hone : (1 : BitVec 32).getLsbD 1 = false := rfl
  have htwo : (2 : BitVec 32).toNat = 2 := rfl
  have hbit := congrArg (BitVec.getLsbD · 1) h
  simp only [BitVec.getLsbD_or, hone, Bool.or_false] at hbit
  have hadd := BitVec.toNat_add a 2
  simp only [← BitVec.testBit_toNat, Nat.testBit_eq_decide_div_mod_eq] at hbit
  have hlt := a.isLt
  have := decide_eq_decide.mp hbit
  omega

theorem getLsbD_zero_add_four (a : BitVec 32) : (a + 4).getLsbD 0 = a.getLsbD 0 := by
  have hfour : (4 : BitVec 32).toNat = 4 := rfl
  have hadd := BitVec.toNat_add a 4
  simp only [← BitVec.testBit_toNat, Nat.testBit_eq_decide_div_mod_eq]
  refine decide_eq_decide.mpr ?_
  omega

/-- Bit 0 comes off again if the address is even. -/
theorem eq_or_one_and_not_one_iff (x : BitVec 32) :
    x = (x ||| 1) &&& ~~~1 ↔ x.getLsbD 0 = false := by
  have hone : ∀ i < 32, (1 : BitVec 32).getLsbD i = decide (i = 0) := by decide
  constructor
  · intro h
    rw [h, BitVec.getLsbD_and, BitVec.getLsbD_not, hone 0 (by decide)]
    simp
  · intro h
    refine BitVec.eq_of_getLsbD_eq fun i hi => ?_
    rw [BitVec.getLsbD_and, BitVec.getLsbD_or, BitVec.getLsbD_not, hone i hi]
    by_cases h0 : i = 0
    · subst h0
      rw [h]
      rfl
    · simp [h0, hi]

theorem not_branchesAsDecoded_blx {insn : BitVec 16} {rm : Nat}
    (hgroup : (insn >>> 10).toNat = 0b010001) (hdecode : decodeSpecialDataBranch insn = .blx rm)
    (h16 : decode16bit insn = decodeSpecialDataBranch insn) (a xpsr : BitVec 32) :
    ¬BranchesAsDecoded (.thumb16 insn) a xpsr := by
  intro h
  have hrun := h NoMemory Unit noOthers (bare a xpsr fun _ => 0) rfl rfl
  simp only [Fetched.decode, h16, hdecode] at hrun
  obtain ⟨⟨c', hok, -⟩, hlinks⟩ := hrun
  have hlr := (hlinks _ _ hok).1
  rw [(exec_blx noOthers _ hgroup hdecode).2, execBranchExchange] at hok
  split at hok
  · rw [execExceptionReturn_bare] at hok
    cases hok
  · cases hok
    exact or_one_ne_after a hlr

theorem branchesAsDecoded_wideCond_iff (hgroup : (insn >>> 27) &&& 0x3 = 0b10)
    (hop : (insn >>> 15) &&& 1 ≠ 0)
    (hcond : (insn >>> 12) &&& 0x5 = 0 ∧ (insn >>> 20) &&& 0x38 ≠ 0x38)
    (hdecode : decode32bit insn =
      .bcc ((insn >>> 22) &&& 0xF).toNat (signed insn (condImm insn) 0xFFE00000))
    (a xpsr : BitVec 32) :
    BranchesAsDecoded (.thumb32 insn) a xpsr ↔ AgreesFor (.thumb32 insn) a xpsr := by
  simp only [BranchesAsDecoded, AgreesFor, Fetched.decode, hdecode, ← condOffset_eq_signed_iff]
  constructor
  · intro h htaken
    obtain ⟨c', hok, hpc⟩ := h NoMemory Unit noOthers (bare a xpsr fun _ => 0) rfl rfl
    rw [exec_wideCond noOthers _ hgroup hop hcond, if_pos htaken] at hok
    cases hok
    rw [if_pos htaken] at hpc
    exact (BitVec.add_right_inj _).mp hpc
  · rintro h μ ε _ others c rfl rfl
    refine ⟨_, exec_wideCond others c hgroup hop hcond, ?_⟩
    have hflags : c.conditionPassed ((insn >>> 22) &&& 0xF).toNat =
        (bare c.pc c.xpsr fun _ => 0).conditionPassed ((insn >>> 22) &&& 0xF).toNat :=
      conditionPassed_congr rfl _
    change (if _ then _ else _) = if _ then _ else _
    split
    · rename_i htaken
      rw [h (hflags ▸ htaken)]
    · rfl

theorem branchesAsDecoded_wide_iff (hgroup : (insn >>> 27) &&& 0x3 = 0b10)
    (hop : (insn >>> 15) &&& 1 ≠ 0)
    (hcond : ¬((insn >>> 12) &&& 0x5 = 0 ∧ (insn >>> 20) &&& 0x38 ≠ 0x38))
    (hdecode : decode32bit insn =
      if insn.getLsbD 14 = true then
        if insn.getLsbD 12 = true then .bl (signed insn (wideImm insn) 0xFE000000)
        else .blxLabel (signed insn (wideImm insn) 0xFE000000)
      else if insn.getLsbD 12 = true then .b (signed insn (wideImm insn) 0xFE000000)
      else .other)
    (a xpsr : BitVec 32) :
    BranchesAsDecoded (.thumb32 insn) a xpsr ↔ AgreesFor (.thumb32 insn) a xpsr := by
  have hexec {μ ε : Type} [ArmMemory μ ε] (others : Others μ ε) (c : Cpu μ) :=
    exec_wide others c hgroup hop hcond
  cases h14 : insn.getLsbD 14 <;> cases h12 : insn.getLsbD 12 <;>
    simp only [h14, h12, if_true, if_false, Bool.false_eq_true] at hdecode hexec
  case false.false => simp [BranchesAsDecoded, AgreesFor, Fetched.decode, hdecode]
  case false.true =>
    simp only [BranchesAsDecoded, AgreesFor, Fetched.decode, hdecode, ← wideOffset_eq_signed,
      iff_true]
    rintro μ ε _ others c rfl -
    exact ⟨_, hexec others c, rfl⟩
  case true.false =>
    refine iff_of_false (fun h => ?_) (by simp [AgreesFor, Fetched.decode, hdecode])
    have hrun := h NoMemory Unit noOthers (bare a xpsr fun _ => 0) rfl rfl
    simp only [Fetched.decode, hdecode] at hrun
    obtain ⟨⟨c', hok, -⟩, -⟩ := hrun
    rw [hexec] at hok
    cases hok
  case true.true =>
    simp only [BranchesAsDecoded, AgreesFor, Fetched.decode, hdecode, ← wideOffset_eq_signed]
    have hreturn : ReturnsTo ((a + 4) ||| 1) (a + 4) ↔
        a.getLsbD 0 = false ∧ (a + 4) ||| 1 < 0xF0000000#32 := by
      rw [returnsTo_iff, eq_or_one_and_not_one_iff, getLsbD_zero_add_four]
      exact and_comm
    refine Iff.trans ?_ hreturn
    constructor
    · intro h
      have hlinks := (h NoMemory Unit noOthers (bare a xpsr fun _ => 0) rfl rfl).2
      exact (hlinks _ _ (hexec noOthers _)).2
    · rintro h μ ε _ others c rfl -
      refine ⟨⟨_, hexec others c, rfl⟩, ?_⟩
      rintro exit c' hok
      cases (hexec others c).symm.trans hok
      exact ⟨rfl, h⟩

/-- An encoding does what the decoder says, at an address and under flags, if and only if it is none
of those where the CPU goes wrong. -/
theorem branches_as_decoded_iff (f : Fetched) (a xpsr : BitVec 32) :
    BranchesAsDecoded f a xpsr ↔ AgreesFor f a xpsr := by
  cases f with
  | thumb16 insn =>
    rcases decode16bit_cases insn with ⟨hgroup, h16⟩ | ⟨hlow, hhigh, h16⟩ | ⟨hlow, hhigh, h16⟩ | h16
    · rcases decodeSpecialDataBranch_cases insn with ⟨rm, hkind⟩ | ⟨rm, hkind⟩ | hkind
      · simp [BranchesAsDecoded, AgreesFor, Fetched.decode, h16, hkind]
      · refine iff_of_false (not_branchesAsDecoded_blx hgroup hkind h16 a xpsr) ?_
        simp [AgreesFor, Fetched.decode, h16, hkind]
      · simp [BranchesAsDecoded, AgreesFor, Fetched.decode, h16, hkind]
    · rcases decodeCondBranchSvc_cases insn with ⟨imm, hkind⟩ | ⟨imm, hkind⟩ | ⟨cond, offset, hkind⟩
      · simp [BranchesAsDecoded, AgreesFor, Fetched.decode, h16, hkind]
      · simp [BranchesAsDecoded, AgreesFor, Fetched.decode, h16, hkind]
      · simp only [BranchesAsDecoded, AgreesFor, Fetched.decode, h16, hkind, iff_true]
        rintro μ ε _ others c rfl rfl
        exact ⟨_, exec_cond others c hlow hhigh hkind, rfl⟩
    · obtain ⟨offset, hkind⟩ : ∃ offset, decodeUncondBranch insn = .b offset := ⟨_, rfl⟩
      simp only [BranchesAsDecoded, AgreesFor, Fetched.decode, h16, hkind, iff_true]
      rintro μ ε _ others c rfl -
      exact ⟨_, exec_uncond others c hlow hhigh hkind, rfl⟩
    · simp [BranchesAsDecoded, AgreesFor, Fetched.decode, h16]
  | thumb32 insn =>
    have hdecode := decode32bit_eq insn
    by_cases hgroup : (insn >>> 27) &&& 0x3 = 0b10 ∧ (insn >>> 15) &&& 1 ≠ 0
    · rw [if_pos hgroup] at hdecode
      by_cases hcond : (insn >>> 12) &&& 0x5 = 0 ∧ (insn >>> 20) &&& 0x38 ≠ 0x38
      · rw [if_pos hcond] at hdecode
        exact branchesAsDecoded_wideCond_iff hgroup.1 hgroup.2 hcond hdecode a xpsr
      · rw [if_neg hcond] at hdecode
        exact branchesAsDecoded_wide_iff hgroup.1 hgroup.2 hcond hdecode a xpsr
    · rw [if_neg hgroup] at hdecode
      simp [BranchesAsDecoded, AgreesFor, Fetched.decode, hdecode]

/-- BEQ.W to the next instruction, at 0x100 with Z set, goes below the address by 256 KiB, and BLX r0
at 0x100 leaves 0x101 in LR. -/
theorem branches_differ :
    ¬BranchesAsDecoded (.thumb32 0xF0008000) 0x100 0x40000000 ∧
      ¬BranchesAsDecoded (.thumb16 0x4780) 0x100 0 := by
  constructor
  · intro h
    obtain ⟨c', hok, hpc⟩ := h NoMemory Unit noOthers (bare 0x100 0x40000000 fun _ => 0) rfl rfl
    have hrun : executeInstruction noOthers (.thumb32 0xF0008000)
        (bare 0x100 0x40000000 fun _ => 0) =
        .ok .cont ((bare 0x100 0x40000000 fun _ => 0).goTo 0xFFFC0104) := rfl
    cases hrun.symm.trans hok
    exact absurd hpc (by decide)
  · intro h
    have hrun : executeInstruction noOthers (.thumb16 0x4780) (bare 0x100 0 fun _ => 0) =
        .ok .cont { (bare 0x100 0 fun _ => 0).goTo 0 with lr := 0x101 } := rfl
    have hlinks := (h NoMemory Unit noOthers (bare 0x100 0 fun _ => 0) rfl rfl).2
    exact absurd (hlinks _ _ hrun).1 (by decide)

end Rax.CortexM

import Rax.Lib.Alignment
import Rax.Lib.Rewriting
import Rax.Smir.Interpret.Move
import Rax.Smir.Optimize.RegFootprint

/-!
# Vector alignment inference

`vector_alignment_inference` of `smir/optimize/mod.rs`. The pass keeps an alignment for some
registers, starting from the stack and frame pointers, and marks a vector access as aligned
if the alignment of its address is at least the vector width. The arithmetic of the table is
sound, but the comparison is meant for powers of two: after a left shift that overflows the
table holds 0, and adding a constant to that gives an alignment that is not one.
-/

namespace Rax.Smir

variable {μ : Type}

inductive VecWidth where
  | v64 | v128 | v256 | v512
  deriving DecidableEq, Repr

/-- `vec_width_bytes`. -/
def VecWidth.bytes : VecWidth → Nat
  | v64 => 8
  | v128 => 16
  | v256 => 32
  | v512 => 64

/-- The encoding hint of an operation, as far as the pass tells hints apart. -/
inductive VecHint where
  | none | unaligned | aligned | other
  deriving DecidableEq, Repr

/-- An operation with its encoding hint. -/
structure HintedOp (μ : Type) where
  op : SmirOp μ
  hint : VecHint

/-- Alignments of registers. -/
abbrev Alignments := VReg → Option Nat

abbrev VReg.rsp : VReg := .x86 .rsp
abbrev VReg.rbp : VReg := .x86 (.gpr ⟨5, Nat.le_add_left 6 26⟩)

/-- `seed_x86_alignments`. -/
def seedX86Alignments : Alignments := fun r => if r = .rsp ∨ r = .rbp then some 16 else none

/-- `alignment_from_addr`. -/
def alignmentFromAddr (addr : Word) : Nat := if addr = 0 then 1 else 2 ^ addr.trailingZeros

/-- `unsigned_abs` of a signed immediate or displacement. -/
def unsignedAbs (v : Word) : Nat := v.toInt.natAbs

/-- `usize::checked_mul`. -/
def checkedMul (a b : Nat) : Option Nat := if a * b < 2 ^ 64 then some (a * b) else none

/-- `usize::checked_shl` by a count that may not fit in 32 bits: only the count is checked. -/
def checkedShl (a : Nat) (count : Word) : Option Nat :=
  if count.toNat < 64 then some (a * 2 ^ count.toNat % 2 ^ 64) else none

/-- `address_alignment`. -/
def addressAlignment (addr : Address) (t : Alignments) : Option Nat :=
  match addr with
  | .direct base => t base
  | .baseOffset base offset => (t base).map (Nat.gcd · (unsignedAbs offset))
  | .baseIndexScale base index scale disp =>
    ((t index).bind (checkedMul · scale)).bind fun scaled =>
      (match base with
        | some base => (t base).map (Nat.gcd scaled ·)
        | none => some scaled).map (Nat.gcd · (unsignedAbs disp))
  | .pcRel offset (some base) =>
    let target : Int := base.toNat + offset.toInt
    if target < 0 then none else some (alignmentFromAddr (BitVec.ofInt 64 target))
  | .absolute addr => some (alignmentFromAddr addr)
  | _ => none

/-- `as_imm`. -/
def SrcOperand.asImm : SrcOperand → Option Word
  | imm v | imm64 v => some v
  | _ => none

/-- `as_reg`. -/
def SrcOperand.asReg : SrcOperand → Option VReg
  | reg r => some r
  | _ => none

/-- The alignment of a mask, at least that of the masked register. -/
def maskAlignment (mask : Word) (src : Option Nat) : Nat :=
  match src with
  | some a => max (alignmentFromAddr mask) a
  | none => alignmentFromAddr mask

/-- The entry that `update_pointer_alignment` computes. -/
def computedAlignment (t : Alignments) : OpKind μ → Option (VReg × Nat)
  | .mov dst src .w64 =>
    match src.asReg, src.asImm with
    | some r, _ => (t r).map (dst, ·)
    | none, some v => if 0 ≤ v.toInt then some (dst, alignmentFromAddr v) else none
    | none, none => none
  | .add dst src1 src2 .w64 _ | .sub dst src1 src2 .w64 _ =>
    (t src1).bind fun a =>
      match src2.asImm, src2.asReg with
      | some v, _ => some (dst, Nat.gcd a (unsignedAbs v))
      | none, some r => (t r).map fun b => (dst, Nat.gcd a b)
      | none, none => none
  | .shl dst src amount .w64 _ =>
    (t src).bind fun a => (amount.asImm.bind (checkedShl a ·)).map (dst, ·)
  | .and dst src1 src2 .w64 _ =>
    src2.asImm.map fun mask => (dst, maskAlignment mask (t src1))
  | .cmove dst src _ .w64 =>
    (t dst).bind fun a => (t src).map fun b => (dst, Nat.gcd a b)
  | .select dst _ srcTrue srcFalse .w64 =>
    (t srcTrue).bind fun a => (t srcFalse).map fun b => (dst, Nat.gcd a b)
  | .lea dst addr | .x86Lea dst addr _ => (addressAlignment addr t).map (dst, ·)
  | _ => none

/-- `update_pointer_alignment`. -/
def updatePointerAlignment (t : Alignments) (kind : OpKind μ) : Alignments := fun r =>
  if r ∈ kind.dests then
    ((computedAlignment t kind).filter fun p => p.1 = r).map Prod.snd
  else t r

section Pass

-- Address and width of the operations `VLoad` and `VStore`, which are outside the integer core.
variable (access : OtherOp μ → Option (Address × VecWidth))

def OpKind.vecAccess : OpKind μ → Option (Address × VecWidth)
  | .other o => access o
  | _ => none

/-- Whether `apply_vec_align_hint` changes the hint. -/
def infersAligned (t : Alignments) (op : HintedOp μ) : Bool :=
  match op.op.kind.vecAccess access with
  | some (addr, width) =>
    (op.hint = .none || op.hint = .unaligned) &&
      (addressAlignment addr t).any fun alignment => decide (width.bytes ≤ alignment)
  | none => false

/-- `apply_vec_align_hint`. -/
def applyVecAlignHint (t : Alignments) (op : HintedOp μ) : HintedOp μ :=
  if infersAligned access t op then { op with hint := .aligned } else op

/-- One iteration over the operations of a block. -/
def alignStep (t : Alignments) (op : HintedOp μ) : HintedOp μ × Alignments :=
  (applyVecAlignHint access t op, updatePointerAlignment t op.op.kind)

/-- The number of inferred hints. -/
def inferredCount : Alignments → List (HintedOp μ) → Nat
  | _, [] => 0
  | t, op :: ops =>
    (if infersAligned access t op then 1 else 0) + inferredCount (alignStep access t op).2 ops

/-- `vector_alignment_inference_block`. -/
def vectorAlignmentInferenceBlock (ops : List (HintedOp μ)) : List (HintedOp μ) × Nat :=
  (rewriteSeq (alignStep access) seedX86Alignments ops,
    inferredCount access seedX86Alignments ops)

end Pass

section Soundness

variable {env : Env} {t : Alignments} {m m' : Machine μ}

/-- The largest vector width is 64 bytes, so alignments are followed up to that. -/
abbrev AlignedWord (a : Nat) (v : Word) : Prop := Aligned 6 a v

/-- Every alignment of the table is a power of two, and right. -/
def AlignmentsHold (env : Env) (t : Alignments) (m : Machine μ) : Prop :=
  ∀ r a, t r = some a → (∃ n, a = 2 ^ n) ∧ AlignedWord a (m.read env r)

theorem gcd_two_pow {a : Nat} (h : ∃ n, a = 2 ^ n) (b : Nat) : ∃ n, Nat.gcd a b = 2 ^ n := by
  obtain ⟨n, rfl⟩ := h
  obtain ⟨j, -, hj⟩ := (Nat.dvd_prime_pow Nat.prime_two).mp (Nat.gcd_dvd_left (2 ^ n) b)
  exact ⟨j, hj⟩

theorem alignmentFromAddr_two_pow (v : Word) : ∃ n, alignmentFromAddr v = 2 ^ n := by
  rw [alignmentFromAddr]
  split
  · exact ⟨0, rfl⟩
  · exact ⟨_, rfl⟩

theorem aligned_alignmentFromAddr (v : Word) : AlignedWord (alignmentFromAddr v) v := by
  refine Aligned.of_toNat_dvd ?_
  rw [alignmentFromAddr]
  split
  · exact Nat.one_dvd _
  · exact v.two_pow_trailingZeros_dvd

theorem aligned_unsignedAbs (v : Word) : AlignedWord (unsignedAbs v) v :=
  Aligned.natAbs_toInt (by decide) v

/-- The scales that the source lists for an address. -/
def Address.ScaleListed : Address → Prop
  | baseIndexScale _ _ scale _ => scale = 1 ∨ scale = 2 ∨ scale = 4 ∨ scale = 8
  | _ => True

theorem checkedMul_two_pow {a scale b : Nat} (ha : ∃ n, a = 2 ^ n)
    (hs : scale = 1 ∨ scale = 2 ∨ scale = 4 ∨ scale = 8) (h : checkedMul a scale = some b) :
    ∃ n, b = 2 ^ n := by
  obtain ⟨n, rfl⟩ := ha
  obtain ⟨j, rfl⟩ : ∃ j, scale = 2 ^ j := by
    rcases hs with rfl | rfl | rfl | rfl
    · exact ⟨0, rfl⟩
    · exact ⟨1, rfl⟩
    · exact ⟨2, rfl⟩
    · exact ⟨3, rfl⟩
  rw [checkedMul] at h
  split at h
  · exact ⟨n + j, by rw [← Option.some.inj h, Nat.pow_add]⟩
  · cases h

theorem eq_mul_of_checkedMul {a b c : Nat} (h : checkedMul a b = some c) : c = a * b := by
  rw [checkedMul] at h
  split at h
  · exact (Option.some.inj h).symm
  · cases h

/-- The alignment of an address is a power of two and divides the effective address. -/
theorem addressAlignment_sound {addr : Address} {a : Nat} (hI : AlignmentsHold env t m)
    (hscale : addr.ScaleListed) (h : addressAlignment addr t = some a) :
    (∃ n, a = 2 ^ n) ∧ AlignedWord a (computeAddress env (m.inputs env) addr) := by
  cases addr with
  | direct base => exact hI base a h
  | baseOffset base offset =>
    obtain ⟨b, hb, rfl⟩ := Option.map_eq_some_iff.mp h
    obtain ⟨hpow, hal⟩ := hI base b hb
    exact ⟨gcd_two_pow hpow _, hal.add (by decide) (aligned_unsignedAbs offset)⟩
  | baseIndexScale base index scale disp =>
    obtain ⟨scaled, hscaled, h⟩ := Option.bind_eq_some_iff.mp h
    obtain ⟨i, hi, hmul⟩ := Option.bind_eq_some_iff.mp hscaled
    obtain ⟨hpowi, hali⟩ := hI index i hi
    have hpow := checkedMul_two_pow hpowi hscale hmul
    have hidx := hali.mul (by decide) scale
    rw [← eq_mul_of_checkedMul hmul] at hidx
    cases base with
    | none =>
      obtain ⟨b, hb, rfl⟩ := Option.map_eq_some_iff.mp h
      obtain rfl := Option.some.inj hb
      refine ⟨gcd_two_pow hpow _, ?_⟩
      have hsum := hidx.add (by decide) (aligned_unsignedAbs disp)
      have haddr : computeAddress env (m.inputs env) (.baseIndexScale none index scale disp) =
          m.read env index * BitVec.ofNat 64 scale + disp := by
        have hzero (x : Word) : 0 + x = x := BitVec.zero_add x
        exact congrArg (· + disp) (hzero _)
      rw [haddr]
      exact hsum
    | some b =>
      obtain ⟨c, hc, rfl⟩ := Option.map_eq_some_iff.mp h
      obtain ⟨ab, hb, rfl⟩ := Option.map_eq_some_iff.mp hc
      obtain ⟨-, halb⟩ := hI b ab hb
      refine ⟨gcd_two_pow (gcd_two_pow hpow _) _, ?_⟩
      have hsum := (hidx.add (by decide) halb).add (by decide) (aligned_unsignedAbs disp)
      rwa [BitVec.add_comm (m.read env index * _)] at hsum
  | pcRel offset base =>
    cases base with
    | none => cases h
    | some base =>
      simp only [addressAlignment] at h
      split at h
      · cases h
      · obtain rfl := Option.some.inj h
        have haddr : computeAddress env (m.inputs env) (.pcRel offset (some base)) =
            BitVec.ofInt 64 (base.toNat + offset.toInt) := by
          rw [BitVec.ofInt_add, BitVec.ofInt_toInt, BitVec.ofInt_natCast, BitVec.ofNat_toNat,
            BitVec.setWidth_eq]
          rfl
        rw [haddr]
        exact ⟨alignmentFromAddr_two_pow _, aligned_alignmentFromAddr _⟩
  | absolute v =>
    obtain rfl := Option.some.inj h
    exact ⟨alignmentFromAddr_two_pow v, aligned_alignmentFromAddr v⟩
  | x86Addr32 inner => cases h
  | gpRel offset => cases h
  | segmentRel segment base index scale disp => cases h

/-- The masks of stored words and of operand widths keep the low six bits. -/
theorem mod_of_and {v mask : Word} (hmask : 0x3F#64 &&& mask = 0x3F#64) :
    (v &&& mask).toNat % 2 ^ 6 = v.toNat % 2 ^ 6 := by
  have hlow (x : Word) : x.toNat % 2 ^ 6 = (x &&& 0x3F#64).toNat := by
    rw [BitVec.toNat_and]
    exact (Nat.and_two_pow_sub_one_eq_mod x.toNat 6).symm
  rw [hlow, hlow, BitVec.and_assoc, BitVec.and_comm mask, hmask]

theorem low_of_mask (width : OpWidth) : 0x3F#64 &&& width.mask = 0x3F#64 := by
  cases width <;> decide

theorem low_of_slot_x86 {r : VReg} {c : Cell} {mask : Word}
    (h : slot .x86 r = .cell c (.full mask)) : 0x3F#64 &&& mask = 0x3F#64 := by
  cases r with
  | virt id => cases h; decide
  | imm val => cases h
  | arch a =>
    cases a with
    | x86 r => cases r <;> cases h <;> decide
    | _ => cases h

/-- The ways of storing a result that keep its low bits. -/
def WriteMode.keepsLow : WriteMode → Bool
  | .raw | .gpr _ | .part _ => true
  | .highByte | .setBit0 => false

theorem merge_mod {w : RegWrite} (h : w.mode.keepsLow = true) (old : Word) :
    (w.merge old).toNat % 2 ^ 6 = w.value.toNat % 2 ^ 6 := by
  obtain ⟨dst, mode, v⟩ := w
  have hpart (width : OpWidth) :
      ((RegWrite.mk dst (.part width) v).merge old).toNat % 2 ^ 6 = v.toNat % 2 ^ 6 := by
    rw [← mod_of_and (low_of_mask width), RegWrite.merge_part_and_mask,
      mod_of_and (low_of_mask width)]
  cases mode with
  | raw => rfl
  | part width => exact hpart width
  | gpr width =>
    have hp := hpart width
    simp only [RegWrite.merge] at hp ⊢
    split
    · next hsub => rwa [if_pos hsub] at hp
    · rfl
  | highByte | setBit0 => cases h

/-- A register of an x86 context is as aligned as what was written to it. -/
theorem aligned_apply {w : RegWrite} {s : RegFile} {a : Nat} (hmode : w.mode.keepsLow = true)
    (hdst : ∀ v, w.dst ≠ .imm v) (h : AlignedWord a w.value) :
    AlignedWord a ((w.apply .x86 s).read .x86 w.dst) := by
  cases hr : slot .x86 w.dst with
  | const value =>
    have hzero : value = 0 := by
      cases hw : w.dst with
      | virt id => rw [hw] at hr; cases hr
      | imm v => exact absurd hw (hdst v)
      | arch r =>
        rw [hw] at hr
        cases r with
        | x86 r => cases r <;> cases hr
        | _ => cases hr; rfl
    simp only [RegFile.read, hr, hzero]
    exact Aligned.zero 6 a
  | cell c view =>
    obtain ⟨mask, rfl⟩ := view_x86 hr
    refine (Aligned.congr ?_).mp h
    have hread : (w.apply .x86 s).read .x86 w.dst = w.merge (s.read .x86 w.dst) &&& mask := by
      simp [RegWrite.apply, RegFile.read, RegFile.write, hr, View.get, View.put]
    rw [hread, mod_of_and (low_of_slot_x86 hr), merge_mod hmode]

variable [SmirMemory μ]

/-- An operation with one register write leaves its destination as aligned as the value. -/
theorem aligned_exec {op : SmirOp μ} {eff : Effect} {w : RegWrite} {a : Nat}
    (harch : env.arch = .x86) (hexec : exec env op m = .next m')
    (heval : (eval env op (m.inputs env)).2 = .ok eff) (hwrites : eff.writes = [w])
    (hmode : w.mode.keepsLow = true) (hdst : ∀ v, w.dst ≠ .imm v)
    (h : AlignedWord a w.value) : AlignedWord a (m'.read env w.dst) := by
  have hstate : (exec env op m).state = m' := by rw [hexec]; rfl
  rw [← hstate, exec_state_of_ok heval, Machine.read, Machine.commit, hwrites, harch]
  exact aligned_apply hmode hdst h

/-- A left shift by a constant does not move the alignment of its source past bit 63. -/
def ShiftFits (t : Alignments) : OpKind μ → Prop
  | .shl _ src amount .w64 _ => ∀ a count, t src = some a → amount.asImm = some count →
    count.toNat < 64 → a * 2 ^ count.toNat < 2 ^ 64
  | _ => True

/-- The address that a load of an effective address computes. -/
def OpKind.leaAddress : OpKind μ → Option Address
  | .lea _ addr | .x86Lea _ addr _ => some addr
  | _ => none

section Computed

variable {pc : Word} {hint : Bool} {d dst src src1 : VReg} {src2 amount : SrcOperand} {a : Nat}
  {flags : FlagUpdate}

theorem and_mask_w64 (v : Word) : v &&& OpWidth.mask .w64 = v := BitVec.and_allOnes

/-- The alignment used for the second operand of an addition or subtraction. -/
def operandAlignment (t : Alignments) (src : SrcOperand) : Option Nat :=
  match src.asImm, src.asReg with
  | some v, _ => some (unsignedAbs v)
  | none, some r => t r
  | none, none => none

omit [SmirMemory μ] in
theorem operandAlignment_sound {c : Nat} (hI : AlignmentsHold env t m)
    (h : operandAlignment t src2 = some c) :
    AlignedWord c (readSrcOperand (m.read env) src2) := by
  cases src2 with
  | imm v | imm64 v =>
    obtain rfl := Option.some.inj h
    exact aligned_unsignedAbs v
  | reg r => exact (hI r c h).2
  | shifted r sh n => cases h
  | extended r e n => cases h

theorem readSrcOperand_of_asImm {read : VReg → Word} {v : Word} (h : src2.asImm = some v) :
    readSrcOperand read src2 = v := by
  cases src2 <;> first | (cases h; rfl) | cases h

variable (harch : env.arch = .x86) (hI : AlignmentsHold env t m) (hdst : ∀ v, dst ≠ .imm v)
include harch hI hdst

theorem computed_mov
    (h : computedAlignment t (.mov (μ := μ) d src2 .w64) = some (dst, a))
    (hexec : exec env ⟨pc, .mov d src2 .w64, hint⟩ m = .next m') :
    (∃ n, a = 2 ^ n) ∧ AlignedWord a (m'.read env dst) := by
  cases src2 with
  | reg r =>
    obtain ⟨b, hb, heq⟩ := Option.map_eq_some_iff.mp h
    obtain ⟨rfl, rfl⟩ := Prod.mk.inj heq
    obtain ⟨hpow, hal⟩ := hI r b hb
    exact ⟨hpow, aligned_exec harch hexec rfl rfl rfl hdst hal⟩
  | imm v | imm64 v =>
    simp only [computedAlignment, SrcOperand.asReg, SrcOperand.asImm] at h
    split at h
    · obtain ⟨rfl, rfl⟩ := Prod.mk.inj (Option.some.inj h)
      exact ⟨alignmentFromAddr_two_pow v,
        aligned_exec harch hexec rfl rfl rfl hdst (aligned_alignmentFromAddr v)⟩
    · cases h
  | shifted r sh n => cases h
  | extended r e n => cases h

theorem computed_arith {kind : ArithKind} (hop : kind = .add ∨ kind = .sub)
    (h : computedAlignment t (.arith (μ := μ) kind d src1 src2 .w64 flags) = some (dst, a))
    (hexec : exec env ⟨pc, .arith kind d src1 src2 .w64 flags, hint⟩ m = .next m') :
    (∃ n, a = 2 ^ n) ∧ AlignedWord a (m'.read env dst) := by
  obtain ⟨b, c, hb, hc, rfl, rfl⟩ : ∃ b c, t src1 = some b ∧ operandAlignment t src2 = some c ∧
      d = dst ∧ Nat.gcd b c = a := by
    have hbind : ((t src1).bind fun b =>
        (operandAlignment t src2).map fun c => (d, Nat.gcd b c)) = some (dst, a) := by
      rw [← h]
      rcases hop with rfl | rfl <;> cases src2 <;> rfl
    obtain ⟨b, hb, hmap⟩ := Option.bind_eq_some_iff.mp hbind
    obtain ⟨c, hc, heq⟩ := Option.map_eq_some_iff.mp hmap
    exact ⟨b, c, hb, hc, Prod.mk.inj heq⟩
  obtain ⟨hpow, hal⟩ := hI src1 b hb
  have hal2 := operandAlignment_sound hI hc
  refine ⟨gcd_two_pow hpow c, aligned_exec harch hexec rfl rfl rfl hdst ?_⟩
  refine Eq.subst (and_mask_w64 _).symm ?_
  rcases hop with rfl | rfl
  · exact hal.add (by decide) hal2
  · exact hal.sub (by decide) hal2

theorem computed_shl (hshift : ShiftFits t (.shl (μ := μ) d src amount .w64 flags))
    (h : computedAlignment t (.shl (μ := μ) d src amount .w64 flags) = some (dst, a))
    (hexec : exec env ⟨pc, .shl d src amount .w64 flags, hint⟩ m = .next m') :
    (∃ n, a = 2 ^ n) ∧ AlignedWord a (m'.read env dst) := by
  obtain ⟨b, hb, h⟩ := Option.bind_eq_some_iff.mp h
  obtain ⟨c, hc, heq⟩ := Option.map_eq_some_iff.mp h
  obtain ⟨count, hcount, hshl⟩ := Option.bind_eq_some_iff.mp hc
  obtain ⟨rfl, rfl⟩ := Prod.mk.inj heq
  rw [checkedShl] at hshl
  split at hshl
  · next hlt =>
    obtain ⟨⟨n, rfl⟩, hal⟩ := hI src b hb
    rw [Nat.mod_eq_of_lt (hshift (2 ^ n) count hb hcount hlt)] at hshl
    obtain rfl := Option.some.inj hshl
    refine ⟨⟨n + count.toNat, (Nat.pow_add 2 n count.toNat).symm⟩, ?_⟩
    refine aligned_exec harch hexec rfl (Interpret.shift_writes _ _ _ _ _ _ _) rfl hdst ?_
    refine Eq.subst (and_mask_w64 _).symm ?_
    -- The interpreter masks the count, which is below 64 already.
    have hamt : (readSrcOperand (m.read env) amount &&&
        scalarShiftCountMask env.sourceArch .w64).toNat = count.toNat := by
      have hmask : scalarShiftCountMask env.sourceArch .w64 = 0x3F := by
        simp [scalarShiftCountMask]
      rw [readSrcOperand_of_asImm hcount, hmask, BitVec.toNat_and]
      exact (Nat.and_two_pow_sub_one_eq_mod count.toNat 6).trans (Nat.mod_eq_of_lt hlt)
    have hshifted := hal.shiftLeft (by decide) count.toNat
    rw [← hamt] at hshifted ⊢
    exact hshifted
  · cases hshl

theorem computed_and
    (h : computedAlignment t (.and (μ := μ) d src1 src2 .w64 flags) = some (dst, a))
    (hexec : exec env ⟨pc, .and d src1 src2 .w64 flags, hint⟩ m = .next m') :
    (∃ n, a = 2 ^ n) ∧ AlignedWord a (m'.read env dst) := by
  obtain ⟨mask, hmask, heq⟩ := Option.map_eq_some_iff.mp h
  obtain ⟨rfl, rfl⟩ := Prod.mk.inj heq
  have hand {c : Nat} (hc : AlignedWord c (m.read env src1 &&& mask)) :
      AlignedWord c (m'.read env d) := by
    refine aligned_exec harch hexec rfl rfl rfl hdst ?_
    refine Eq.subst (and_mask_w64 _).symm ?_
    have hread : readSrcOperand (m.read env) src2 = mask := readSrcOperand_of_asImm hmask
    rw [← hread] at hc
    exact hc
  have hbymask : AlignedWord (alignmentFromAddr mask) (m'.read env d) :=
    hand ((aligned_alignmentFromAddr mask).and_right _)
  cases hs : t src1 with
  | none => exact ⟨alignmentFromAddr_two_pow mask, hbymask⟩
  | some b =>
    obtain ⟨hpow, hal⟩ := hI src1 b hs
    rcases Nat.le_total (alignmentFromAddr mask) b with hle | hle
    · rw [maskAlignment, Nat.max_eq_right hle]
      exact ⟨hpow, hand (hal.and_left mask)⟩
    · rw [maskAlignment, Nat.max_eq_left hle]
      exact ⟨alignmentFromAddr_two_pow mask, hbymask⟩

theorem computed_cmove {cond : Condition}
    (h : computedAlignment t (.cmove (μ := μ) d src cond .w64) = some (dst, a))
    (hexec : exec env ⟨pc, .cmove d src cond .w64, hint⟩ m = .next m') :
    (∃ n, a = 2 ^ n) ∧ AlignedWord a (m'.read env dst) := by
  obtain ⟨b, hb, h⟩ := Option.bind_eq_some_iff.mp h
  obtain ⟨c, hc, heq⟩ := Option.map_eq_some_iff.mp h
  obtain ⟨rfl, rfl⟩ := Prod.mk.inj heq
  obtain ⟨hpow, hald⟩ := hI d b hb
  obtain ⟨-, hals⟩ := hI src c hc
  refine ⟨gcd_two_pow hpow c, ?_⟩
  by_cases htaken : FlagImage.evalCondition (m.inputs env).flags.bit cond = true
  · refine aligned_exec harch hexec rfl (if_pos htaken) rfl hdst ?_
    refine Eq.subst (and_mask_w64 _).symm ?_
    exact hals.of_dvd (Nat.gcd_dvd_right b c)
  · have hstate : (exec env ⟨pc, .cmove d src cond .w64, hint⟩ m).state = m' := by
      rw [hexec]; rfl
    have hread : m'.read env d = m.read env d := by
      rw [← hstate, exec_state_of_ok rfl]
      have hnone : (Interpret.cmove d (m.read env src)
          (FlagImage.evalCondition (m.inputs env).flags.bit cond) .w64).writes = [] :=
        if_neg htaken
      exact congrArg (fun ws => (applyWrites env.arch ws m.regs).read env.arch d) hnone
    rw [hread]
    exact hald.of_dvd (Nat.gcd_dvd_left b c)

theorem computed_select {cond srcTrue srcFalse : VReg}
    (h : computedAlignment t (.select (μ := μ) d cond srcTrue srcFalse .w64) = some (dst, a))
    (hexec : exec env ⟨pc, .select d cond srcTrue srcFalse .w64, hint⟩ m = .next m') :
    (∃ n, a = 2 ^ n) ∧ AlignedWord a (m'.read env dst) := by
  obtain ⟨b, hb, h⟩ := Option.bind_eq_some_iff.mp h
  obtain ⟨c, hc, heq⟩ := Option.map_eq_some_iff.mp h
  obtain ⟨rfl, rfl⟩ := Prod.mk.inj heq
  obtain ⟨hpow, halt⟩ := hI srcTrue b hb
  obtain ⟨-, half⟩ := hI srcFalse c hc
  refine ⟨gcd_two_pow hpow c, aligned_exec harch hexec rfl rfl rfl hdst ?_⟩
  change AlignedWord _ (if m.read env cond ≠ 0 then m.read env srcTrue
    else m.read env srcFalse)
  split
  · exact halt.of_dvd (Nat.gcd_dvd_left b c)
  · exact half.of_dvd (Nat.gcd_dvd_right b c)

/-- The entry computed for an operation is right after it. -/
theorem computedAlignment_sound {op : SmirOp μ} (hshift : ShiftFits t op.kind)
    (hscale : ∀ addr, op.kind.leaAddress = some addr → addr.ScaleListed)
    (h : computedAlignment t op.kind = some (dst, a)) (hexec : exec env op m = .next m') :
    (∃ n, a = 2 ^ n) ∧ AlignedWord a (m'.read env dst) := by
  obtain ⟨pc, kind, hint⟩ := op
  cases kind with
  | mov d src width =>
    cases width with
    | w64 => exact computed_mov harch hI hdst h hexec
    | _ => cases h
  | arith kind d src1 src2 width flags =>
    cases kind with
    | add =>
      cases width with
      | w64 => exact computed_arith harch hI hdst (Or.inl rfl) h hexec
      | _ => cases h
    | sub =>
      cases width with
      | w64 => exact computed_arith harch hI hdst (Or.inr rfl) h hexec
      | _ => cases h
    | _ => cases h
  | shift kind d src amount width flags =>
    cases kind with
    | shl =>
      cases width with
      | w64 => exact computed_shl harch hI hdst hshift h hexec
      | _ => cases h
    | _ => cases h
  | logic kind d src1 src2 width flags =>
    cases kind with
    | and =>
      cases width with
      | w64 => exact computed_and harch hI hdst h hexec
      | _ => cases h
    | _ => cases h
  | cmove d src cond width =>
    cases width with
    | w64 => exact computed_cmove harch hI hdst h hexec
    | _ => cases h
  | select d cond srcTrue srcFalse width =>
    cases width with
    | w64 => exact computed_select harch hI hdst h hexec
    | _ => cases h
  | lea d addr | x86Lea d addr width =>
    obtain ⟨b, hb, heq⟩ := Option.map_eq_some_iff.mp h
    obtain ⟨rfl, rfl⟩ := Prod.mk.inj heq
    obtain ⟨hpow, hal⟩ := addressAlignment_sound hI (hscale addr rfl) hb
    exact ⟨hpow, aligned_exec harch hexec rfl rfl rfl hdst hal⟩
  | _ => cases h

end Computed

end Soundness

section Inference

variable (env : Env) (access : OtherOp μ → Option (Address × VecWidth))

/-- What an operation must meet for the table in front of it: a shift does not overflow the
alignment, scales are 1, 2, 4 or 8, a destination is not a constant, and no tracked register
is written without being listed. -/
structure KeepsAlignments (t : Alignments) (_ : Unit) (op : HintedOp μ) : Prop where
  shift : ShiftFits t op.op.kind
  leaScale : ∀ addr, op.op.kind.leaAddress = some addr → addr.ScaleListed
  vecScale : ∀ addr width, op.op.kind.vecAccess access = some (addr, width) → addr.ScaleListed
  dest : ∀ dst a v, computedAlignment t op.op.kind = some (dst, a) → dst ≠ .imm v
  spares : ∀ r, t r ≠ none → r ∉ op.op.kind.dests → op.op.kind.spares env r = true

/-- A block in which every operation does. -/
def AlignmentsTracked (ops : List (HintedOp μ)) : Prop :=
  Throughout (alignStep access) (fun _ _ _ => ()) (KeepsAlignments env access)
    seedX86Alignments () ops

variable [SmirMemory μ]

/-- Along the run from a state, every access that the pass marks is aligned to its width. -/
def MarksAligned (ops : List (HintedOp μ)) (m : Machine μ) : Prop :=
  AlongWith (fun op m => exec env op.op m) (alignStep access)
    (fun t op m => infersAligned access t op = true →
      ∀ addr width, op.op.kind.vecAccess access = some (addr, width) →
        width.bytes ∣ (computeAddress env (m.inputs env) addr).toNat)
    seedX86Alignments ops m

variable {env access} {t : Alignments} {op : HintedOp μ} {m m' : Machine μ}

omit [SmirMemory μ] in
theorem hint_applyVecAlignHint : (applyVecAlignHint access t op).hint = .aligned ∧
    op.hint ≠ .aligned ↔ infersAligned access t op = true := by
  cases h : infersAligned access t op with
  | false => simp [applyVecAlignHint, h]
  | true =>
    refine ⟨fun _ => rfl, fun _ => ⟨by simp [applyVecAlignHint, h], fun haligned => ?_⟩⟩
    unfold infersAligned at h
    split at h
    · simp [haligned] at h
    · cases h

/-- The marked accesses are those with a hint in the result of the pass that they did not have. -/
theorem marksAligned_iff_hints {ops : List (HintedOp μ)} : MarksAligned env access ops m ↔
    Along (fun p m => exec env p.1.op m)
      (fun p m => p.2.hint = .aligned ∧ p.1.hint ≠ .aligned →
        ∀ addr width, p.1.op.kind.vecAccess access = some (addr, width) →
          width.bytes ∣ (computeAddress env (m.inputs env) addr).toNat)
      (ops.zip (vectorAlignmentInferenceBlock access ops).1) m :=
  alongWith_iff_along_zip fun _ _ _ => imp_congr_left hint_applyVecAlignHint.symm

theorem VecWidth.bytes_eq_two_pow (width : VecWidth) : ∃ n ≤ 6, width.bytes = 2 ^ n := by
  cases width
  · exact ⟨3, by decide, rfl⟩
  · exact ⟨4, by decide, rfl⟩
  · exact ⟨5, by decide, rfl⟩
  · exact ⟨6, by decide, rfl⟩

omit [SmirMemory μ] in
/-- A marked access is aligned if the table is right. -/
theorem aligned_of_infersAligned {addr : Address} {width : VecWidth}
    (hI : AlignmentsHold env t m) (hscale : addr.ScaleListed)
    (hacc : op.op.kind.vecAccess access = some (addr, width))
    (h : infersAligned access t op = true) :
    width.bytes ∣ (computeAddress env (m.inputs env) addr).toNat := by
  simp only [infersAligned, hacc, Bool.and_eq_true] at h
  obtain ⟨-, hany⟩ := h
  cases halign : addressAlignment addr t with
  | none => simp [halign] at hany
  | some a =>
    have hle : width.bytes ≤ a := by simpa [halign] using hany
    obtain ⟨⟨n, rfl⟩, hal⟩ := addressAlignment_sound hI hscale halign
    obtain ⟨j, hj, hbytes⟩ := width.bytes_eq_two_pow
    rw [hbytes] at hle ⊢
    have hjn : j ≤ n := (Nat.pow_le_pow_iff_right (by decide)).mp hle
    exact hal.two_pow_dvd hj (Nat.pow_dvd_pow 2 hjn)

theorem AlignmentsHold.next (harch : env.arch = .x86) (hI : AlignmentsHold env t m)
    (hC : KeepsAlignments env access t () op) (hexec : exec env op.op m = .next m') :
    AlignmentsHold env (updatePointerAlignment t op.op.kind) m' := by
  intro r a hr
  by_cases hd : r ∈ op.op.kind.dests
  · rw [updatePointerAlignment, if_pos hd] at hr
    obtain ⟨p, hp, rfl⟩ := Option.map_eq_some_iff.mp hr
    obtain ⟨hcomp, heq⟩ := Option.filter_eq_some_iff.mp hp
    obtain ⟨dst, b⟩ := p
    obtain rfl : dst = r := by simpa using heq
    exact computedAlignment_sound harch hI (fun v => hC.dest dst b v hcomp) hC.shift hC.leaScale
      hcomp hexec
  · rw [updatePointerAlignment, if_neg hd] at hr
    obtain ⟨hpow, hal⟩ := hI r a hr
    rw [read_exec_of_spares (hC.spares r (by simp [hr]) hd) hexec]
    exact ⟨hpow, hal⟩

omit [SmirMemory μ] in
/-- The seeds hold where the stack and frame pointers are multiples of 16. -/
theorem alignmentsHold_seed (hrsp : 16 ∣ (m.read env .rsp).toNat)
    (hrbp : 16 ∣ (m.read env .rbp).toNat) : AlignmentsHold env seedX86Alignments m := by
  intro r a hr
  rw [seedX86Alignments] at hr
  split at hr
  · next hr' =>
    obtain rfl := Option.some.inj hr
    refine ⟨⟨4, rfl⟩, Aligned.of_toNat_dvd ?_⟩
    rcases hr' with rfl | rfl
    · exact hrsp
    · exact hrbp
  · cases hr

/-- In an x86 block entered with aligned stack and frame pointers, the marked accesses are
aligned, for every value of the other registers. -/
theorem vectorAlignmentInference_marksAligned {ops : List (HintedOp μ)}
    (harch : env.arch = .x86) (hrsp : 16 ∣ (m.read env .rsp).toNat)
    (hrbp : 16 ∣ (m.read env .rbp).toNat) (h : AlignmentsTracked env access ops) :
    MarksAligned env access ops m := by
  refine alongWith_of_invariant (P := fun _ _ => True) (fun t _ m => AlignmentsHold env t m)
    ?_ ?_ (alignmentsHold_seed hrsp hrbp) h (along_of_forall (fun _ _ => trivial) ops m)
  · intro t _ op m hI hC _ hmark addr width hacc
    exact aligned_of_infersAligned hI (hC.vecScale addr width hacc) hacc hmark
  · intro t _ op m m' hI hC _ hexec
    exact hI.next harch hC hexec

end Inference

section Blocks

/-- A vector load from an address: it reads the address registers and changes nothing that
the registers of the model hold. -/
def vecLoadOp : OtherOp FlatMemory :=
  { dests := [], sources := [.rsp], outWidth := none, sideEffects := false,
    preciseDeopt := false, writesMemory := false, flagsWritten := ∅, flagsMustWrite := ∅,
    flagsRead := ∅, reads := [], flagReads := ∅, written := [],
    eval := fun _ i => i.done {},
    eval_congr := fun _ _ _ h => by simp only [Inputs.done, h.mem],
    eval_written := fun _ _ _ h w hw => by
      obtain rfl := Except.ok.inj h
      exact absurd hw List.not_mem_nil }

/-- Every vector operation of the block loads 16 bytes at 32 above the stack pointer. -/
def stackAccess (_ : OtherOp FlatMemory) : Option (Address × VecWidth) :=
  some (.baseOffset .rsp 32, .v128)

/-- Room is made on the stack and a vector is loaded from it. -/
def stackSlot : List (HintedOp FlatMemory) :=
  [⟨⟨0, .sub .rsp .rsp (.imm 0x40) .w64 .none, false⟩, .none⟩,
    ⟨⟨4, .other vecLoadOp, false⟩, .none⟩]

theorem stackSlot_marksAligned :
    infersAligned stackAccess
        (updatePointerAlignment seedX86Alignments
          (.sub .rsp .rsp (.imm 0x40) .w64 .none : OpKind FlatMemory))
        ⟨⟨4, .other vecLoadOp, false⟩, .none⟩ = true ∧
      MarksAligned ⟨.x86, .x86_64, {}⟩ stackAccess stackSlot (.blankWith .rsp 0x7FF0) := by
  refine ⟨by decide, ?_⟩
  refine vectorAlignmentInference_marksAligned rfl (by decide) (by decide) ?_
  refine ⟨⟨trivial, fun _ h => (by cases h), fun _ _ h => (by cases h), ?_, ?_⟩,
    ⟨trivial, fun _ h => (by cases h), ?_, ?_, ?_⟩, trivial⟩
  · rintro dst a v h rfl
    cases h
  · intro r hr hd
    have hcases : r = .rsp ∨ r = .rbp := by
      rw [seedX86Alignments] at hr
      split at hr
      · assumption
      · exact absurd rfl hr
    rcases hcases with rfl | rfl
    · exact absurd (List.mem_singleton_self _) hd
    · decide
  · rintro addr width h
    obtain ⟨rfl, rfl⟩ := Prod.mk.inj (Option.some.inj h)
    trivial
  · rintro dst a v h
    cases h
  · intro r _ _
    rfl

/-- The stack pointer is shifted out and 24 is added. -/
def shiftedOut : List (HintedOp FlatMemory) :=
  [⟨⟨0, .shl .rsp .rsp (.imm 60) .w64 .none, false⟩, .none⟩,
    ⟨⟨4, .other vecLoadOp, false⟩, .none⟩]

/-- The alignment of the shifted register is 0, that of the address 24, and the access at
address 24 is marked as aligned to 16 bytes. -/
theorem shiftedOut_not_marksAligned :
    16 ∣ ((Machine.blankWith .rsp 0x7FF0).read ⟨.x86, .x86_64, {}⟩ .rsp).toNat ∧
      16 ∣ ((Machine.blankWith .rsp 0x7FF0).read ⟨.x86, .x86_64, {}⟩ .rbp).toNat ∧
      ¬ MarksAligned ⟨.x86, .x86_64, {}⟩ (fun _ => some (.baseOffset .rsp 24, .v128)) shiftedOut
        (.blankWith .rsp 0x7FF0) := by
  refine ⟨by decide, by decide, fun h => ?_⟩
  have hsecond := (h.2 _ rfl).1 (by decide) (.baseOffset .rsp 24) .v128 rfl
  revert hsecond
  decide

end Blocks

end Rax.Smir

import Rax.Lib.Word

/-!
# Lazy RFLAGS of the direct vCPU

The direct vCPU (`isa/x86_64/cpu.rs`) does not compute the status flags after every
instruction. It keeps the operands and the result of the last flag writer and computes the
flags from them in `materialize_flags`. The APX handlers compute them at once in
`update_flags_alu`. Both are compared with the flags that the architecture defines on
operands of the exact width.
-/

namespace Rax.X86

/-- Operand sizes of the integer instructions. -/
inductive OpSize where
  | b1 | b2 | b4 | b8
  deriving DecidableEq, Repr

namespace OpSize

def bits : OpSize → Nat
  | b1 => 8
  | b2 => 16
  | b4 => 32
  | b8 => 64

def mask : OpSize → Word
  | b1 => 0xFF#64
  | b2 => 0xFFFF#64
  | b4 => 0xFFFFFFFF#64
  | b8 => 0xFFFFFFFFFFFFFFFF#64

def signBit : OpSize → Word
  | b1 => 0x80#64
  | b2 => 0x8000#64
  | b4 => 0x80000000#64
  | b8 => 0x8000000000000000#64

end OpSize

/-- The five status flags under comparison. -/
structure Status where
  cf : Bool
  pf : Bool
  zf : Bool
  sf : Bool
  of : Bool
  deriving DecidableEq, Repr

namespace Status

/-- The status flags of an RFLAGS image. -/
def ofRflags (rflags : Word) : Status :=
  ⟨rflags.getLsbD 0, rflags.getLsbD 2, rflags.getLsbD 6, rflags.getLsbD 7, rflags.getLsbD 11⟩

end Status

/-- Whether the low byte has an even number of set bits. -/
def evenParity {w : Nat} (v : BitVec w) : Bool := (List.range 8).countP v.getLsbD % 2 == 0

namespace Bits

def cf : Word := 0x1#64
def pf : Word := 0x4#64
def af : Word := 0x10#64
def zf : Word := 0x40#64
def sf : Word := 0x80#64
def of : Word := 0x800#64

end Bits

/-- The flags that materialising clears. -/
def clearedMask (cfMask : Word) : Word :=
  cfMask ||| Bits.zf ||| Bits.sf ||| Bits.pf ||| Bits.of ||| Bits.af

/-- Set the bits of `flag` if the condition holds. -/
def raise (flag : Word) (cond : Bool) (rflags : Word) : Word :=
  if cond then rflags ||| flag else rflags

inductive LazyFlagOp where
  | none | add | sub | logic | inc | dec
  deriving DecidableEq, Repr

structure LazyFlags where
  op : LazyFlagOp
  result : Word
  src : Word
  dst : Word
  size : OpSize
  deriving DecidableEq, Repr

/-- The flag state of the vCPU: the stored RFLAGS and the pending record over them. -/
structure FlagRegs where
  rflags : Word
  lazyFlags : LazyFlags
  deriving DecidableEq, Repr

namespace LazyFlags

def resultM (lf : LazyFlags) : Word := lf.result &&& lf.size.mask

def aM (lf : LazyFlags) : Word := lf.src &&& lf.size.mask

def bM (lf : LazyFlags) : Word := lf.dst &&& lf.size.mask

def addCf (lf : LazyFlags) : Bool := BitVec.ult lf.resultM lf.aM

def subCf (lf : LazyFlags) : Bool := BitVec.ult lf.aM lf.bM

def addOf (lf : LazyFlags) : Bool :=
  (lf.aM ^^^ lf.resultM) &&& (lf.bM ^^^ lf.resultM) &&& lf.size.signBit != 0

def subOf (lf : LazyFlags) : Bool :=
  (lf.aM ^^^ lf.bM) &&& (lf.aM ^^^ lf.resultM) &&& lf.size.signBit != 0

def auxiliary (lf : LazyFlags) : Bool := (lf.aM ^^^ lf.bM ^^^ lf.resultM) &&& 0x10 != 0

end LazyFlags

namespace FlagRegs

/-- RFLAGS with the pending record applied. -/
def computeMaterializedRflags (f : FlagRegs) : Word :=
  let lf := f.lazyFlags
  if lf.op = .none then f.rflags else
  let zf := lf.resultM == 0
  let sf := lf.resultM &&& lf.size.signBit != 0
  let pf := evenParity lf.result
  -- INC and DEC do not clear the stored carry
  let cfMask := if lf.op = .inc ∨ lf.op = .dec then 0 else Bits.cf
  let kept := f.rflags &&& ~~~clearedMask cfMask
  let common := raise Bits.pf pf (raise Bits.sf sf (raise Bits.zf zf kept))
  match lf.op with
  | .add => raise Bits.af lf.auxiliary (raise Bits.of lf.addOf (raise Bits.cf lf.addCf common))
  | .inc => raise Bits.af lf.auxiliary (raise Bits.of lf.addOf common)
  | .sub => raise Bits.af lf.auxiliary (raise Bits.of lf.subOf (raise Bits.cf lf.subCf common))
  | .dec => raise Bits.af lf.auxiliary (raise Bits.of lf.subOf common)
  | .logic | .none => common

def clearLazyFlags (f : FlagRegs) : FlagRegs :=
  { f with lazyFlags := { f.lazyFlags with op := .none } }

def materializeFlags (f : FlagRegs) : FlagRegs :=
  { f.clearLazyFlags with rflags := f.computeMaterializedRflags }

/-- Store the carry of the pending record and keep the record. -/
def resolveLazyCf (f : FlagRegs) : FlagRegs :=
  match f.lazyFlags.op with
  | .none | .inc | .dec => f
  | .logic => { f with rflags := f.rflags &&& ~~~Bits.cf }
  | .add => { f with rflags :=
      if f.lazyFlags.addCf then f.rflags ||| Bits.cf else f.rflags &&& ~~~Bits.cf }
  | .sub => { f with rflags :=
      if f.lazyFlags.subCf then f.rflags ||| Bits.cf else f.rflags &&& ~~~Bits.cf }

def setLazyAdd (f : FlagRegs) (a b result : Word) (size : OpSize) : FlagRegs :=
  { f with lazyFlags := ⟨.add, result, a, b, size⟩ }

def setLazySub (f : FlagRegs) (a b result : Word) (size : OpSize) : FlagRegs :=
  { f with lazyFlags := ⟨.sub, result, a, b, size⟩ }

def setLazyLogic (f : FlagRegs) (result : Word) (size : OpSize) : FlagRegs :=
  { f with lazyFlags := ⟨.logic, result, 0, 0, size⟩ }

def setLazyInc (f : FlagRegs) (a result : Word) (size : OpSize) : FlagRegs :=
  { f with lazyFlags := ⟨.inc, result, a, 1, size⟩ }

def setLazyDec (f : FlagRegs) (a result : Word) (size : OpSize) : FlagRegs :=
  { f with lazyFlags := ⟨.dec, result, a, 1, size⟩ }

/-- The flags that a reader sees after `materialize_flags`. -/
def settled (f : FlagRegs) : Status := Status.ofRflags f.materializeFlags.rflags

end FlagRegs

inductive ApxAluOp where
  | add | or | and | sub | xor
  deriving DecidableEq, Repr

/-- Carry and overflow of the eager computation. -/
def aluCfOf (result src1 src2 : Word) (size : OpSize) : ApxAluOp → Bool × Bool
  | .add => (BitVec.ult size.mask result || BitVec.ult result src1,
      ~~~(src1 ^^^ src2) &&& (src1 ^^^ result) &&& size.signBit != 0)
  | .sub => (BitVec.ult src1 src2,
      (src1 ^^^ src2) &&& (src1 ^^^ result) &&& size.signBit != 0)
  | .and | .or | .xor => (false, false)

/-- Eager flags of the APX handlers. -/
def FlagRegs.updateFlagsAlu (f : FlagRegs) (result src1 src2 : Word) (size : OpSize)
    (op : ApxAluOp) : FlagRegs :=
  let maskedResult := result &&& size.mask
  let zf := maskedResult == 0
  let sf := maskedResult &&& size.signBit != 0
  let pf := evenParity result
  let cfOf := aluCfOf result src1 src2 size op
  { f.clearLazyFlags with
    rflags := raise 0x800#64 cfOf.2 (raise 0x80#64 sf (raise 0x40#64 zf (raise 0x4#64 pf
        (raise 0x1#64 cfOf.1 (f.rflags &&& ~~~0x8D5#64))))) }

namespace Status

/-- Flags of a result, with the given carry and overflow. -/
def ofResult {w : Nat} (result : BitVec w) (cf of : Bool) : Status :=
  ⟨cf, evenParity result, result == 0, result.msb, of⟩

/-- Architectural flags of an addition. -/
def add {w : Nat} (a b : BitVec w) : Status :=
  ofResult (a + b) (a.uaddOverflow b) (a.saddOverflow b)

/-- Architectural flags of a subtraction or comparison. -/
def sub {w : Nat} (a b : BitVec w) : Status :=
  ofResult (a - b) (a.usubOverflow b) (a.ssubOverflow b)

/-- Architectural flags of a logical instruction. -/
def logic {w : Nat} (result : BitVec w) : Status := ofResult result false false

end Status

namespace Status

theorem ofRflags_and (r m : Word) :
    ofRflags (r &&& m) = ⟨(ofRflags r).cf && (ofRflags m).cf, (ofRflags r).pf && (ofRflags m).pf,
      (ofRflags r).zf && (ofRflags m).zf, (ofRflags r).sf && (ofRflags m).sf,
      (ofRflags r).of && (ofRflags m).of⟩ := by
  simp only [ofRflags, BitVec.getLsbD_and]

theorem ofRflags_raise (flag r : Word) (cond : Bool) :
    ofRflags (raise flag cond r) = ⟨(ofRflags r).cf || (cond && (ofRflags flag).cf),
      (ofRflags r).pf || (cond && (ofRflags flag).pf),
      (ofRflags r).zf || (cond && (ofRflags flag).zf),
      (ofRflags r).sf || (cond && (ofRflags flag).sf),
      (ofRflags r).of || (cond && (ofRflags flag).of)⟩ := by
  cases cond <;> simp only [raise, ofRflags, BitVec.getLsbD_or, if_true, Bool.true_and,
    Bool.false_and, Bool.or_false, Bool.false_eq_true, if_false]

@[simp] theorem ofRflags_cf : ofRflags Bits.cf = ⟨true, false, false, false, false⟩ := rfl
@[simp] theorem ofRflags_pf : ofRflags Bits.pf = ⟨false, true, false, false, false⟩ := rfl
@[simp] theorem ofRflags_af : ofRflags Bits.af = ⟨false, false, false, false, false⟩ := rfl
@[simp] theorem ofRflags_zf : ofRflags Bits.zf = ⟨false, false, true, false, false⟩ := rfl
@[simp] theorem ofRflags_sf : ofRflags Bits.sf = ⟨false, false, false, true, false⟩ := rfl
@[simp] theorem ofRflags_of : ofRflags Bits.of = ⟨false, false, false, false, true⟩ := rfl

@[simp] theorem ofRflags_not_clearedMask_cf :
    ofRflags (~~~clearedMask Bits.cf) = ⟨false, false, false, false, false⟩ := rfl

@[simp] theorem ofRflags_not_clearedMask_zero :
    ofRflags (~~~clearedMask 0#64) = ⟨true, false, false, false, false⟩ := rfl

end Status

namespace LazyFlags

/-- Flags of a record with the given carry and overflow. -/
def withCfOf (lf : LazyFlags) (cf of : Bool) : Status :=
  ⟨cf, evenParity lf.result, lf.resultM == 0, lf.resultM &&& lf.size.signBit != 0, of⟩

/-- The status flags that a pending record leaves over the stored ones. -/
def status (lf : LazyFlags) (old : Status) : Status :=
  match lf.op with
  | .none => old
  | .add => lf.withCfOf lf.addCf lf.addOf
  | .sub => lf.withCfOf lf.subCf lf.subOf
  | .logic => lf.withCfOf false false
  | .inc => lf.withCfOf old.cf lf.addOf
  | .dec => lf.withCfOf old.cf lf.subOf

end LazyFlags

namespace FlagRegs

/-- What a reader sees is given by the pending record and the stored flags. -/
theorem settled_eq (f : FlagRegs) :
    f.settled = f.lazyFlags.status (Status.ofRflags f.rflags) := by
  obtain ⟨rflags, op, result, src, dst, size⟩ := f
  cases op with
  | none => rfl
  | _ =>
    simp [settled, materializeFlags, computeMaterializedRflags, LazyFlags.status,
      LazyFlags.withCfOf, Status.ofRflags_raise, Status.ofRflags_and]

end FlagRegs

namespace OpSize

theorem bits_le (s : OpSize) : s.bits ≤ 64 := by cases s <;> decide

theorem bits_pos (s : OpSize) : 8 ≤ s.bits := by cases s <;> decide

/-- An operand seen at its size. -/
abbrev cut (s : OpSize) (v : Word) : BitVec s.bits := v.setWidth s.bits

theorem toNat_and_mask (s : OpSize) (v : Word) :
    (v &&& s.mask).toNat = (s.cut v).toNat := by
  rw [BitVec.toNat_setWidth, BitVec.toNat_and]
  cases s with
  | b1 => exact Nat.and_two_pow_sub_one_eq_mod v.toNat 8
  | b2 => exact Nat.and_two_pow_sub_one_eq_mod v.toNat 16
  | b4 => exact Nat.and_two_pow_sub_one_eq_mod v.toNat 32
  | b8 => exact Nat.and_two_pow_sub_one_eq_mod v.toNat 64

theorem and_mask_beq_zero (s : OpSize) (v : Word) : (v &&& s.mask == 0) = (s.cut v == 0) := by
  rw [Bool.eq_iff_iff, beq_iff_eq, beq_iff_eq, ← BitVec.toNat_inj, ← BitVec.toNat_inj,
    toNat_and_mask]
  rfl

theorem and_signBit (s : OpSize) (v : Word) : (v &&& s.signBit != 0) = (s.cut v).msb := by
  have hsign : s.signBit = BitVec.twoPow 64 (s.bits - 1) := by cases s <;> rfl
  have hne : BitVec.twoPow 64 (s.bits - 1) ≠ 0 := by cases s <;> decide
  have hpos : 0 < s.bits := Nat.lt_of_lt_of_le (by decide) s.bits_pos
  rw [hsign, BitVec.and_twoPow, BitVec.msb_setWidth]
  cases v.getLsbD (s.bits - 1) with
  | false => simp
  | true => simpa [hpos] using hne

theorem msb_cut_and_mask (s : OpSize) (v : Word) : (s.cut (v &&& s.mask)).msb = (s.cut v).msb := by
  have hcut : s.cut (v &&& s.mask) = s.cut v := by
    rw [← BitVec.toNat_inj, BitVec.toNat_setWidth, toNat_and_mask, Nat.mod_eq_of_lt (s.cut v).isLt]
  rw [hcut]

theorem evenParity_cut (s : OpSize) (v : Word) : evenParity (s.cut v) = evenParity v := by
  have hbit : ∀ i ∈ List.range 8, (s.cut v).getLsbD i = true ↔ v.getLsbD i = true := by
    intro i hi
    have hlt : i < s.bits := Nat.lt_of_lt_of_le (List.mem_range.mp hi) s.bits_pos
    simp [hlt]
  rw [evenParity, evenParity, List.countP_congr hbit]

theorem msb_and (s : OpSize) (x y : Word) :
    (s.cut (x &&& y)).msb = ((s.cut x).msb && (s.cut y).msb) := by
  simp only [BitVec.msb_setWidth, BitVec.getLsbD_and]
  cases decide (0 < s.bits) <;> simp

theorem msb_xor (s : OpSize) (x y : Word) :
    (s.cut (x ^^^ y)).msb = ((s.cut x).msb ^^ (s.cut y).msb) := by
  simp only [BitVec.msb_setWidth, BitVec.getLsbD_xor]
  cases decide (0 < s.bits) <;> simp

theorem msb_not (s : OpSize) (x : Word) : (s.cut (~~~x)).msb = !(s.cut x).msb := by
  have hlt : s.bits - 1 < 64 := by cases s <;> decide
  have hpos : 0 < s.bits := Nat.lt_of_lt_of_le (by decide) s.bits_pos
  simp only [BitVec.msb_setWidth, BitVec.getLsbD_not, hpos, hlt, decide_true, Bool.true_and]

theorem cut_sub (s : OpSize) (x y : Word) : s.cut (x - y) = s.cut x - s.cut y := by
  rw [cut, BitVec.sub_eq_add_neg, BitVec.setWidth_add _ _ s.bits_le,
    BitVec.setWidth_neg_of_le s.bits_le, ← BitVec.sub_eq_add_neg]

theorem cut_add (s : OpSize) (x y : Word) : s.cut (x + y) = s.cut x + s.cut y :=
  BitVec.setWidth_add _ _ s.bits_le

end OpSize

namespace LazyFlags

variable {lf : LazyFlags} {old : Status}

theorem decide_ult (s : OpSize) (x y : Word) :
    BitVec.ult (x &&& s.mask) (y &&& s.mask) = decide ((s.cut x).toNat < (s.cut y).toNat) := by
  rw [BitVec.ult, s.toNat_and_mask, s.toNat_and_mask]

end LazyFlags

namespace FlagRegs

variable {s : OpSize} {a b result : Word}

@[simp] theorem settled_materializeFlags (f : FlagRegs) : f.materializeFlags.settled = f.settled :=
  rfl

theorem settled_updateFlagsAlu (f : FlagRegs) (op : ApxAluOp) :
    (f.updateFlagsAlu result a b s op).settled =
      Status.ofResult (s.cut result) (aluCfOf result a b s op).1 (aluCfOf result a b s op).2 := by
  have hclear : Status.ofRflags (~~~0x8D5#64) = ⟨false, false, false, false, false⟩ := rfl
  have hcf : Status.ofRflags 0x1#64 = ⟨true, false, false, false, false⟩ := rfl
  have hpf : Status.ofRflags 0x4#64 = ⟨false, true, false, false, false⟩ := rfl
  have hzf : Status.ofRflags 0x40#64 = ⟨false, false, true, false, false⟩ := rfl
  have hsf : Status.ofRflags 0x80#64 = ⟨false, false, false, true, false⟩ := rfl
  have hof : Status.ofRflags 0x800#64 = ⟨false, false, false, false, true⟩ := rfl
  rw [settled_eq, updateFlagsAlu, LazyFlags.status]
  simp only [clearLazyFlags, Status.ofRflags_raise, Status.ofRflags_and, hclear, hcf, hpf, hzf,
    hsf, hof, Bool.and_false, Bool.and_true, Bool.or_false, Bool.false_or, Status.ofResult,
    OpSize.evenParity_cut, OpSize.and_mask_beq_zero, OpSize.and_signBit, OpSize.msb_cut_and_mask]

/-- The eager carry of an addition is right at its size for operands that fit, and for a wider
second operand exactly if the addition carries anyway. -/
theorem aluCf_add (ha : a.toNat < 2 ^ s.bits)
    (hb : b.toNat < 2 ^ s.bits ∨ (s.cut a).uaddOverflow (s.cut b) = true) :
    (BitVec.ult s.mask (a + b) || BitVec.ult (a + b) a) =
      (s.cut a).uaddOverflow (s.cut b) := by
  have hmask : s.mask.toNat + 1 = 2 ^ s.bits := by cases s <;> rfl
  have ha64 := a.isLt
  have hb64 := b.isLt
  have hle : 2 ^ s.bits ≤ 2 ^ 64 := Nat.pow_le_pow_right (by decide) s.bits_le
  rw [Bool.eq_iff_iff, Bool.or_eq_true, BitVec.ult_iff_lt, BitVec.ult_iff_lt, BitVec.lt_def,
    BitVec.lt_def, BitVec.toNat_add]
  rcases Nat.lt_or_ge b.toNat (2 ^ s.bits) with hfit | hwide
  · simp only [BitVec.uaddOverflow, BitVec.toNat_setWidth, Nat.mod_eq_of_lt ha,
      Nat.mod_eq_of_lt hfit, decide_eq_true_eq]
    omega
  · have hcarry := hb.resolve_left (by omega)
    simp only [hcarry, iff_true]
    omega

theorem settled_updateFlagsAlu_add (f : FlagRegs) (ha : a.toNat < 2 ^ s.bits)
    (hb : b.toNat < 2 ^ s.bits ∨ (s.cut a).uaddOverflow (s.cut b) = true) :
    (f.updateFlagsAlu (a + b) a b s .add).settled = Status.add (s.cut a) (s.cut b) := by
  have hof : (aluCfOf (a + b) a b s .add).2 = (s.cut a).saddOverflow (s.cut b) := by
    rw [aluCfOf, OpSize.and_signBit, OpSize.msb_and, OpSize.msb_not, OpSize.msb_xor,
      OpSize.msb_xor, OpSize.cut_add, BitVec.saddOverflow_eq]
    cases (s.cut a).msb <;> cases (s.cut b).msb <;> cases (s.cut a + s.cut b).msb <;> rfl
  rw [settled_updateFlagsAlu, hof, aluCfOf, aluCf_add ha hb, OpSize.cut_add, Status.add]

theorem settled_updateFlagsAlu_sub (f : FlagRegs) (ha : a.toNat < 2 ^ s.bits)
    (hb : b.toNat < 2 ^ s.bits ∨ (s.cut a).usubOverflow (s.cut b) = true) :
    (f.updateFlagsAlu (a - b) a b s .sub).settled = Status.sub (s.cut a) (s.cut b) := by
  have hof : (aluCfOf (a - b) a b s .sub).2 = (s.cut a).ssubOverflow (s.cut b) := by
    rw [aluCfOf, OpSize.and_signBit, OpSize.msb_and, OpSize.msb_xor, OpSize.msb_xor,
      OpSize.cut_sub, BitVec.ssubOverflow_eq]
    cases (s.cut a).msb <;> cases (s.cut b).msb <;> cases (s.cut a - s.cut b).msb <;> rfl
  have hcf : BitVec.ult a b = (s.cut a).usubOverflow (s.cut b) := by
    rcases Nat.lt_or_ge b.toNat (2 ^ s.bits) with hfit | hwide
    · simp only [BitVec.ult, BitVec.usubOverflow, BitVec.toNat_setWidth, Nat.mod_eq_of_lt ha,
        Nat.mod_eq_of_lt hfit]
    · rw [hb.resolve_left (by omega), BitVec.ult, decide_eq_true_eq]
      omega
  rw [settled_updateFlagsAlu, hof, aluCfOf, hcf, OpSize.cut_sub, Status.sub]

end FlagRegs

end Rax.X86

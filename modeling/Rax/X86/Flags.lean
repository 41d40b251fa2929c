import Rax.Lib.Bits
import Rax.Lib.Carry
import Rax.X86.LazyFlags

/-!
# Evaluating the flags of the direct vCPU

Three evaluators of the pending flags: `materialize_flags`, which stores them,
`compute_materialized_rflags`, which only returns them, and `check_condition`, which computes
the few flags a condition code asks for (`isa/x86_64/cpu.rs`). They agree in every state. With
them the flag updates of ADC and SBB (`isa/x86_64/flags.rs`), against unbounded integers.
-/

namespace Rax.X86

namespace Status

/-- The condition codes. -/
def holds (s : Status) : Nat → Bool
  | 0x0 => s.of
  | 0x1 => !s.of
  | 0x2 => s.cf
  | 0x3 => !s.cf
  | 0x4 => s.zf
  | 0x5 => !s.zf
  | 0x6 => s.cf || s.zf
  | 0x7 => !s.cf && !s.zf
  | 0x8 => s.sf
  | 0x9 => !s.sf
  | 0xA => s.pf
  | 0xB => !s.pf
  | 0xC => s.sf != s.of
  | 0xD => s.sf == s.of
  | 0xE => s.zf || s.sf != s.of
  | 0xF => !s.zf && s.sf == s.of
  | _ => false

/-- The status flags, each tested with its mask. -/
def tested (rflags : Word) : Status :=
  ⟨rflags &&& Bits.cf != 0#64, rflags &&& Bits.pf != 0#64, rflags &&& Bits.zf != 0#64,
    rflags &&& Bits.sf != 0#64, rflags &&& Bits.of != 0#64⟩

theorem tested_eq_ofRflags (rflags : Word) : tested rflags = ofRflags rflags := by
  have hbit (i : Nat) (hi : i < 64) :
      (rflags &&& BitVec.twoPow 64 i != 0#64) = rflags.getLsbD i := by
    rw [BitVec.and_twoPow]
    cases rflags.getLsbD i with
    | false => rfl
    | true =>
      have hne : BitVec.twoPow 64 i ≠ 0#64 := by
        intro h
        have hi' := congrArg (·.getLsbD i) h
        simp [hi] at hi'
      simpa using hne
  simp only [tested, ofRflags, Status.mk.injEq]
  exact ⟨hbit 0 (by decide), hbit 2 (by decide), hbit 6 (by decide), hbit 7 (by decide),
    hbit 11 (by decide)⟩

end Status

/-- `condition_holds`: a condition code on an RFLAGS image. -/
def conditionHolds (rflags : Word) (conditionCode : BitVec 8) : Bool :=
  (Status.tested rflags).holds (conditionCode &&& 0x0F#8).toNat

namespace FlagRegs

/-- Set a flag of the stored RFLAGS if a condition holds. -/
def raiseFlag (f : FlagRegs) (flag : Word) (cond : Bool) : FlagRegs :=
  { f with rflags := raise flag cond f.rflags }

/-- `materialize_flags`, update by update. -/
def materializeInPlace (f : FlagRegs) : FlagRegs :=
  let lf := f.lazyFlags
  if lf.op = .none then f
  else
    let zf := lf.resultM == 0
    let sf := lf.resultM &&& lf.size.signBit != 0
    let pf := evenParity lf.result
    let cfMask := if lf.op = .inc ∨ lf.op = .dec then 0#64 else Bits.cf
    let f := { f with rflags := f.rflags &&& ~~~clearedMask cfMask }
    let f := ((f.raiseFlag Bits.zf zf).raiseFlag Bits.sf sf).raiseFlag Bits.pf pf
    let f :=
      match lf.op with
      | .add | .inc =>
        let f := f.raiseFlag Bits.cf (decide (lf.op = LazyFlagOp.add) && lf.addCf)
        (f.raiseFlag Bits.of lf.addOf).raiseFlag Bits.af lf.auxiliary
      | .sub | .dec =>
        let f := f.raiseFlag Bits.cf (decide (lf.op = LazyFlagOp.sub) && lf.subCf)
        (f.raiseFlag Bits.of lf.subOf).raiseFlag Bits.af lf.auxiliary
      | .logic | .none => f
    { f with lazyFlags := { lf with op := .none } }

theorem materializeInPlace_eq (f : FlagRegs) : f.materializeInPlace = f.materializeFlags := by
  obtain ⟨rflags, op, result, src, dst, size⟩ := f
  cases op <;> rfl

/-- The flags as `check_condition` computes them: from RFLAGS if nothing is pending, otherwise
from the pending operands. -/
def pendingStatus (f : FlagRegs) : Status :=
  let lf := f.lazyFlags
  let stored := Status.tested f.rflags
  if lf.op = .none then stored
  else
    { zf := lf.resultM == 0
      sf := lf.resultM &&& lf.size.signBit != 0
      cf :=
        match lf.op with
        | .add => lf.addCf
        | .sub => lf.subCf
        | .inc | .dec => stored.cf
        | .logic | .none => false
      of :=
        match lf.op with
        | .add | .inc => lf.addOf
        | .sub | .dec => lf.subOf
        | .logic | .none => false
      pf := evenParity lf.result }

def checkCondition (f : FlagRegs) (cc : BitVec 8) : Bool := f.pendingStatus.holds cc.toNat

theorem pendingStatus_eq (f : FlagRegs) :
    f.pendingStatus = Status.tested f.materializeInPlace.rflags := by
  have hsettled : Status.ofRflags f.materializeFlags.rflags =
      f.lazyFlags.status (Status.ofRflags f.rflags) := f.settled_eq
  rw [materializeInPlace_eq, Status.tested_eq_ofRflags, hsettled, pendingStatus,
    Status.tested_eq_ofRflags]
  obtain ⟨rflags, op, result, src, dst, size⟩ := f
  cases op <;> rfl

/-- All three evaluators of the pending flags agree. -/
theorem checkCondition_eq_conditionHolds (f : FlagRegs) (cc : BitVec 8) (hcc : cc.toNat < 16) :
    f.checkCondition cc = conditionHolds f.materializeInPlace.rflags cc ∧
      f.computeMaterializedRflags = f.materializeInPlace.rflags := by
  have hlow : cc &&& 0x0F#8 = cc := by
    refine BitVec.eq_of_toNat_eq ?_
    rw [BitVec.toNat_and]
    exact (Nat.and_two_pow_sub_one_eq_mod cc.toNat 4).trans (Nat.mod_eq_of_lt hcc)
  constructor
  · rw [checkCondition, conditionHolds, hlow, pendingStatus_eq]
  · rw [materializeInPlace_eq]
    rfl

theorem checkCondition_eq_conditionHolds_below :
    (FlagRegs.mk 0#64 ⟨.sub, 0xFE#64, 3#64, 5#64, .b1⟩).checkCondition 0x2#8 =
        conditionHolds (FlagRegs.mk 0#64 ⟨.sub, 0xFE#64, 3#64, 5#64, .b1⟩).materializeInPlace.rflags
          0x2#8 ∧
      (FlagRegs.mk 0#64 ⟨.sub, 0xFE#64, 3#64, 5#64, .b1⟩).computeMaterializedRflags =
        (FlagRegs.mk 0#64 ⟨.sub, 0xFE#64, 3#64, 5#64, .b1⟩).materializeInPlace.rflags :=
  checkCondition_eq_conditionHolds _ _ (by decide)

end FlagRegs

/-! ## ADC and SBB -/

section CarryIn

def computePf (value : Word) : Bool := evenParity value

def computeZf (value : Word) (size : OpSize) : Bool := size.cut value == 0

def computeSf (value : Word) (size : OpSize) : Bool := decide ((size.cut value).toInt < 0)

/-- Clear the six arithmetic flags and set those given. -/
def storeFlags (rflags : Word) (cf zf sf pf of af : Bool) : Word :=
  raise Bits.af af (raise Bits.of of (raise Bits.pf pf (raise Bits.sf sf
    (raise Bits.zf zf (raise Bits.cf cf (rflags &&& ~~~clearedMask Bits.cf))))))

def updateFlagsAdc (rflags a b : Word) (cfIn : Bool) (result : Word) (size : OpSize) : Word :=
  let a := a &&& size.mask
  let b := b &&& size.mask
  let result := result &&& size.mask
  let cf := BitVec.ult result a || (cfIn && result == a)
  let of := (a ^^^ result) &&& (b ^^^ result) &&& size.signBit != 0
  let af := (a ^^^ b ^^^ result) &&& 0x10#64 != 0
  storeFlags rflags cf (computeZf result size) (computeSf result size) (computePf result) of af

def updateFlagsSbb (rflags a b : Word) (cfIn : Bool) (result : Word) (size : OpSize) : Word :=
  let a := a &&& size.mask
  let b := b &&& size.mask
  let result := result &&& size.mask
  let cf := BitVec.ult a b || (cfIn && a == b)
  let of := (a ^^^ b) &&& (a ^^^ result) &&& size.signBit != 0
  let af := (a ^^^ b ^^^ result) &&& 0x10#64 != 0
  storeFlags rflags cf (computeZf result size) (computeSf result size) (computePf result) of af

/-- An RFLAGS image that shows a carry, a signed overflow and a carry out of bit 3 exactly under
the given conditions, and the zero, sign and parity of a result. -/
structure ShowsArithmetic {n : Nat} (rflags : Word) (result : BitVec n)
    (carry overflow auxiliary : Prop) : Prop where
  cf : rflags.getLsbD 0 = true ↔ carry
  of : rflags.getLsbD 11 = true ↔ overflow
  af : rflags.getLsbD 4 = true ↔ auxiliary
  zf : rflags.getLsbD 6 = true ↔ result = 0
  sf : rflags.getLsbD 7 = true ↔ result.toInt < 0
  pf : rflags.getLsbD 2 = evenParity result

theorem getLsbD_raise_or (flag r : Word) (cond : Bool) (i : Nat) :
    (raise flag cond r).getLsbD i = (r.getLsbD i || (cond && flag.getLsbD i)) := by
  cases cond with
  | true => rw [raise, if_pos rfl, BitVec.getLsbD_or, Bool.true_and]
  | false => rw [raise, if_neg (by decide), Bool.false_and, Bool.or_false]

theorem storeFlags_bits (rflags : Word) (cf zf sf pf of af : Bool) :
    let r := storeFlags rflags cf zf sf pf of af
    r.getLsbD 0 = cf ∧ r.getLsbD 2 = pf ∧ r.getLsbD 4 = af ∧ r.getLsbD 6 = zf ∧
      r.getLsbD 7 = sf ∧ r.getLsbD 11 = of := by
  have hclear (i : Nat) (hi : (~~~clearedMask Bits.cf).getLsbD i = false) :
      (rflags &&& ~~~clearedMask Bits.cf).getLsbD i = false := by
    rw [BitVec.getLsbD_and, hi, Bool.and_false]
  simp only [storeFlags, getLsbD_raise_or, hclear 0 rfl, hclear 2 rfl, hclear 4 rfl, hclear 6 rfl,
    hclear 7 rfl, hclear 11 rfl]
  refine ⟨?_, ?_, ?_, ?_, ?_, ?_⟩ <;> simp [Bits.cf, Bits.pf, Bits.af, Bits.zf, Bits.sf, Bits.of]

namespace OpSize

variable (s : OpSize)

theorem cut_and_mask (v : Word) : s.cut (v &&& s.mask) = s.cut v := by
  rw [← BitVec.toNat_inj, BitVec.toNat_setWidth, toNat_and_mask, Nat.mod_eq_of_lt (s.cut v).isLt]

theorem and_mask_beq (x y : Word) : (x &&& s.mask == y &&& s.mask) = (s.cut x == s.cut y) := by
  rw [Bool.eq_iff_iff, beq_iff_eq, beq_iff_eq, ← BitVec.toNat_inj, ← BitVec.toNat_inj,
    toNat_and_mask, toNat_and_mask]

theorem getLsbD_cut {i : Nat} (hi : i < s.bits) (v : Word) : (s.cut v).getLsbD i = v.getLsbD i := by
  rw [BitVec.getLsbD_setWidth, decide_eq_true hi, Bool.true_and]

theorem getLsbD_and_mask {i : Nat} (hi : i < s.bits) (v : Word) :
    (v &&& s.mask).getLsbD i = (s.cut v).getLsbD i := by
  rw [← s.getLsbD_cut hi, cut_and_mask]

theorem auxiliary_eq (a b result : Word) :
    (((a &&& s.mask) ^^^ (b &&& s.mask) ^^^ (result &&& s.mask)) &&& 0x10#64 != 0) =
      ((s.cut a).getLsbD 4 ^^ (s.cut b).getLsbD 4 ^^ (s.cut result).getLsbD 4) := by
  have hi : 4 < s.bits := Nat.lt_of_lt_of_le (by decide) s.bits_pos
  have htwo : (0x10#64 : Word) = BitVec.twoPow 64 4 := rfl
  have hbit (v : Word) : (v &&& 0x10#64 != 0) = v.getLsbD 4 := by
    rw [htwo, BitVec.and_twoPow]
    cases v.getLsbD 4 <;> rfl
  rw [hbit, BitVec.getLsbD_xor, BitVec.getLsbD_xor, s.getLsbD_and_mask hi, s.getLsbD_and_mask hi,
    s.getLsbD_and_mask hi]

end OpSize

section Exact

variable (s : OpSize) (rflags a b : Word) (c : Bool) {result : Word}

theorem storeFlags_shows {carry overflow auxiliary : Prop} {cf of af : Bool}
    (hcf : cf = true ↔ carry) (hof : of = true ↔ overflow) (haf : af = true ↔ auxiliary) :
    ShowsArithmetic
      (storeFlags rflags cf (computeZf (result &&& s.mask) s) (computeSf (result &&& s.mask) s)
        (computePf (result &&& s.mask)) of af)
      (s.cut result) carry overflow auxiliary := by
  obtain ⟨h0, h2, h4, h6, h7, h11⟩ := storeFlags_bits rflags cf (computeZf (result &&& s.mask) s)
    (computeSf (result &&& s.mask) s) (computePf (result &&& s.mask)) of af
  refine ⟨by rw [h0, hcf], by rw [h11, hof], by rw [h4, haf], ?_, ?_, ?_⟩
  · rw [h6, computeZf, s.cut_and_mask, beq_iff_eq]
  · rw [h7, computeSf, s.cut_and_mask, decide_eq_true_eq]
  · rw [h2, computePf, ← s.evenParity_cut, s.cut_and_mask]

theorem updateFlagsAdc_shows (h : s.cut result = addc (s.cut a) (s.cut b) c) :
    ShowsArithmetic (updateFlagsAdc rflags a b c result s) (s.cut result)
      (2 ^ s.bits ≤ (s.cut a).toNat + (s.cut b).toNat + c.toNat)
      ((s.cut a).toInt + (s.cut b).toInt + c.toNat < -2 ^ (s.bits - 1) ∨
        2 ^ (s.bits - 1) ≤ (s.cut a).toInt + (s.cut b).toInt + c.toNat)
      (16 ≤ (s.cut a).toNat % 16 + (s.cut b).toNat % 16 + c.toNat) := by
  have hw : 0 < s.bits := Nat.lt_of_lt_of_le (by decide) s.bits_pos
  refine storeFlags_shows s rflags ?_ ?_ ?_
  · rw [LazyFlags.decide_ult, s.and_mask_beq, Bool.or_eq_true, Bool.and_eq_true, beq_iff_eq,
      decide_eq_true_eq, ← BitVec.toNat_inj, h]
    exact addc_carry_iff hw (s.cut a) (s.cut b) c
  · rw [s.and_signBit, s.msb_and, s.msb_xor, s.msb_xor, s.msb_cut_and_mask, s.msb_cut_and_mask,
      s.msb_cut_and_mask, h, Bool.and_eq_true, ← Bool.bne_eq_xor, bne_iff_ne, bne_iff_ne]
    exact addc_overflow_iff hw (s.cut a) (s.cut b) c
  · have hnibble : 2 ^ 4 = 16 := by decide
    rw [s.auxiliary_eq, h, addc_bit (Nat.lt_of_lt_of_le (by decide) s.bits_pos),
      decide_eq_true_eq, hnibble]

theorem updateFlagsSbb_shows (h : s.cut result = subc (s.cut a) (s.cut b) c) :
    ShowsArithmetic (updateFlagsSbb rflags a b c result s) (s.cut result)
      ((s.cut a).toNat < (s.cut b).toNat + c.toNat)
      ((s.cut a).toInt - (s.cut b).toInt - c.toNat < -2 ^ (s.bits - 1) ∨
        2 ^ (s.bits - 1) ≤ (s.cut a).toInt - (s.cut b).toInt - c.toNat)
      ((s.cut a).toNat % 16 < (s.cut b).toNat % 16 + c.toNat) := by
  have hw : 0 < s.bits := Nat.lt_of_lt_of_le (by decide) s.bits_pos
  refine storeFlags_shows s rflags ?_ ?_ ?_
  · rw [LazyFlags.decide_ult, s.and_mask_beq, Bool.or_eq_true, Bool.and_eq_true, beq_iff_eq,
      decide_eq_true_eq, ← BitVec.toNat_inj]
    exact subc_borrow_iff (s.cut a) (s.cut b) c
  · rw [s.and_signBit, s.msb_and, s.msb_xor, s.msb_xor, s.msb_cut_and_mask, s.msb_cut_and_mask,
      s.msb_cut_and_mask, h, Bool.and_eq_true, ← Bool.bne_eq_xor, bne_iff_ne, bne_iff_ne]
    exact subc_overflow_iff hw (s.cut a) (s.cut b) c
  · have hnibble : 2 ^ 4 = 16 := by decide
    rw [s.auxiliary_eq, h, subc_bit (Nat.lt_of_lt_of_le (by decide) s.bits_pos),
      decide_eq_true_eq, hnibble]

/-- The flags of ADC and SBB are those of the unbounded sum and difference. The callers pass the
wrapping sum and difference of the operands and the carry. -/
theorem updateFlags_carryIn_exact {sum difference : Word}
    (hsum : s.cut sum = addc (s.cut a) (s.cut b) c)
    (hdifference : s.cut difference = subc (s.cut a) (s.cut b) c) :
    ShowsArithmetic (updateFlagsAdc rflags a b c sum s) (s.cut sum)
        (2 ^ s.bits ≤ (s.cut a).toNat + (s.cut b).toNat + c.toNat)
        ((s.cut a).toInt + (s.cut b).toInt + c.toNat < -2 ^ (s.bits - 1) ∨
          2 ^ (s.bits - 1) ≤ (s.cut a).toInt + (s.cut b).toInt + c.toNat)
        (16 ≤ (s.cut a).toNat % 16 + (s.cut b).toNat % 16 + c.toNat) ∧
      ShowsArithmetic (updateFlagsSbb rflags a b c difference s) (s.cut difference)
        ((s.cut a).toNat < (s.cut b).toNat + c.toNat)
        ((s.cut a).toInt - (s.cut b).toInt - c.toNat < -2 ^ (s.bits - 1) ∨
          2 ^ (s.bits - 1) ≤ (s.cut a).toInt - (s.cut b).toInt - c.toNat)
        ((s.cut a).toNat % 16 < (s.cut b).toNat % 16 + c.toNat) :=
  ⟨updateFlagsAdc_shows s rflags a b c hsum, updateFlagsSbb_shows s rflags a b c hdifference⟩

/-- At the wrap point the sum equals the first operand and still carries. -/
theorem updateFlags_carryIn_exact_wrap :
    ShowsArithmetic (updateFlagsAdc 0#64 5#64 0xFF#64 true 0x105#64 .b1) (OpSize.b1.cut 0x105#64)
        (2 ^ 8 ≤ 5 + 255 + 1)
        ((5 : Int) + -1 + 1 < -2 ^ 7 ∨ (2 ^ 7 : Int) ≤ 5 + -1 + 1) (16 ≤ 5 + 15 + 1) ∧
      ShowsArithmetic (updateFlagsSbb 0#64 5#64 0xFF#64 true 5#64 .b1) (OpSize.b1.cut 5#64)
        (5 < 255 + 1)
        ((5 : Int) - -1 - 1 < -2 ^ 7 ∨ (2 ^ 7 : Int) ≤ 5 - -1 - 1) (5 < 15 + 1) :=
  updateFlags_carryIn_exact .b1 0#64 5#64 0xFF#64 true rfl rfl

end Exact

end CarryIn

end Rax.X86

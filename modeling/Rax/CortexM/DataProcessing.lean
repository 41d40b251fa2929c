import Rax.CortexM.Exception
import Rax.Lib.Bits
import Rax.Smir.Interpret.Shift

/-!
# Data processing with a shifted register on the Cortex-M

`exec_data_processing_shifted_32` of `cortex_m/cpu.rs` against the same instruction computed
with the helpers of the AArch32 core: `decode_imm_shift`, `shift_c` and `add_with_carry`. The
arithmetic agrees everywhere. The shifter of the Cortex-M takes an amount of zero to mean no
shift, for every type of shift; the encodings that mean a shift by 32 or a rotation through
carry come out wrong.
-/

namespace Rax.CortexM

open Rax.Smir (ShiftOp)
open Rax.Smir.Interpret (shiftC addWithCarry)

variable {μ : Type}

inductive ArmError
  | undefinedInstruction (insn : BitVec 32)
  deriving DecidableEq, Repr

namespace Cpu

/-! ## Registers and flags -/

def reg (c : Cpu μ) (n : Nat) : BitVec 32 :=
  if h : n < 13 then c.regs ⟨n, h⟩
  else if n = 13 then c.currentSp
  else if n = 14 then c.lr
  else if n = 15 then c.pc
  else 0

/-- `set_reg`. The program counter drops bit 0. -/
def putReg (c : Cpu μ) (n : Nat) (value : BitVec 32) : Cpu μ :=
  if h : n < 13 then c.setReg ⟨n, h⟩ value
  else if n = 13 then c.setCurrentSp value
  else if n = 14 then { c with lr := value }
  else if n = 15 then { c with pc := value &&& ~~~1#32 }
  else c

/-- A bit of the status register. -/
def flag (c : Cpu μ) (i : Nat) : Bool := (c.xpsr >>> i) &&& 1#32 != 0#32

def setFlag (c : Cpu μ) (i : Nat) (value : Bool) : Cpu μ :=
  { c with xpsr := if value then c.xpsr ||| 1#32 <<< i else c.xpsr &&& ~~~(1#32 <<< i) }

def getN (c : Cpu μ) : Bool := c.flag 31
def getZ (c : Cpu μ) : Bool := c.flag 30
def getC (c : Cpu μ) : Bool := c.flag 29
def getV (c : Cpu μ) : Bool := c.flag 28

def setN (c : Cpu μ) (value : Bool) : Cpu μ := c.setFlag 31 value
def setZ (c : Cpu μ) (value : Bool) : Cpu μ := c.setFlag 30 value
def setC (c : Cpu μ) (value : Bool) : Cpu μ := c.setFlag 29 value
def setV (c : Cpu μ) (value : Bool) : Cpu μ := c.setFlag 28 value

def updateNz (c : Cpu μ) (result : BitVec 32) : Cpu μ :=
  (c.setN (decide (result.toInt < 0))).setZ (result == 0#32)

end Cpu

/-! ## The instruction -/

/-- `shift_c` of the Cortex-M, for the four types and amounts below 32 that an encoding can
hold. An amount of zero is no shift. -/
def shiftWithCarry (value : BitVec 32) (shiftType : BitVec 32) (shiftN : Nat) (carryIn : Bool) :
    BitVec 32 × Bool :=
  if shiftN = 0 then (value, carryIn)
  else if shiftType = 0b00#32 then
    if shiftN < 32 then (value <<< shiftN, (value >>> (32 - shiftN)) &&& 1#32 != 0#32)
    else if shiftN = 32 then (0#32, value &&& 1#32 != 0#32)
    else (0#32, false)
  else if shiftType = 0b01#32 then
    if shiftN < 32 then (value >>> shiftN, (value >>> (shiftN - 1)) &&& 1#32 != 0#32)
    else if shiftN = 32 then (0#32, value >>> 31 != 0#32)
    else (0#32, false)
  else if shiftType = 0b10#32 then
    if shiftN < 32 then
      (value.sshiftRight shiftN, (value >>> (shiftN - 1)) &&& 1#32 != 0#32)
    else (if value.toInt < 0 then 0xFFFFFFFF#32 else 0#32, decide (value.toInt < 0))
  else
    let effective := shiftN % 32
    if effective = 0 then (value, value >>> 31 != 0#32)
    else (value.rotateRight effective, value.rotateRight effective >>> 31 != 0#32)

inductive DpOp
  | and | bic | orr | orn | eor | pkh | add | adc | sbc | sub | rsb
  deriving DecidableEq, Repr

/-- The operation field; the other values are undefined. -/
def dpOp (insn : BitVec 32) : Option DpOp :=
  match ((insn >>> 21) &&& 0xF#32).toNat with
  | 0b0000 => some .and
  | 0b0001 => some .bic
  | 0b0010 => some .orr
  | 0b0011 => some .orn
  | 0b0100 => some .eor
  | 0b0110 => some .pkh
  | 0b1000 => some .add
  | 0b1010 => some .adc
  | 0b1011 => some .sbc
  | 0b1101 => some .sub
  | 0b1110 => some .rsb
  | _ => none

/-- The other fields of the encoding. -/
structure DpFields where
  setFlags : Bool
  rn : Nat
  rd : Nat
  rm : Nat
  shiftType : BitVec 32
  shiftN : Nat
  tbform : Bool

def dpFields (insn : BitVec 32) : DpFields where
  setFlags := (insn >>> 20) &&& 1#32 != 0#32
  rn := ((insn >>> 16) &&& 0xF#32).toNat
  rd := ((insn >>> 8) &&& 0xF#32).toNat
  rm := (insn &&& 0xF#32).toNat
  shiftType := (insn >>> 4) &&& 0x3#32
  shiftN := ((((insn >>> 12) &&& 0x7#32) <<< 2) ||| ((insn >>> 6) &&& 0x3#32)).toNat
  tbform := (insn >>> 5) &&& 1#32 != 0#32

/-- `overflowing_add`. -/
def overflowingAdd (x y : BitVec 32) : BitVec 32 × Bool :=
  (x + y, decide (2 ^ 32 ≤ x.toNat + y.toNat))

/-- `overflowing_sub`. -/
def overflowingSub (x y : BitVec 32) : BitVec 32 × Bool := (x - y, decide (x < y))

/-- Signed overflow of a sum and of a difference, from the signs. -/
def addOverflows (x y r : BitVec 32) : Bool := (~~~(x ^^^ y) &&& (x ^^^ r)) >>> 31 != 0#32

def subOverflows (x y r : BitVec 32) : Bool := ((x ^^^ y) &&& (x ^^^ r)) >>> 31 != 0#32

/-- The result of an operation and, for the arithmetic ones, carry and overflow. -/
def DpOp.result (op : DpOp) (f : DpFields) (rnVal shifted : BitVec 32) (carryIn : Bool) :
    BitVec 32 × Option (Bool × Bool) :=
  match op with
  | .and => (rnVal &&& shifted, none)
  | .bic => (rnVal &&& ~~~shifted, none)
  | .orr => (if f.rn = 15 then shifted else rnVal ||| shifted, none)
  | .orn => (if f.rn = 15 then ~~~shifted else rnVal ||| ~~~shifted, none)
  | .eor => (rnVal ^^^ shifted, none)
  | .pkh =>
    (if f.tbform then (rnVal &&& 0xFFFF0000#32) ||| (shifted &&& 0x0000FFFF#32)
      else (shifted &&& 0xFFFF0000#32) ||| (rnVal &&& 0x0000FFFF#32), none)
  | .add =>
    let (r, c) := overflowingAdd rnVal shifted
    (r, some (c, addOverflows rnVal shifted r))
  | .adc =>
    let cIn := if carryIn then 1#32 else 0#32
    let (r1, c1) := overflowingAdd rnVal shifted
    let (r, c2) := overflowingAdd r1 cIn
    (r, some (c1 || c2, addOverflows rnVal shifted r))
  | .sbc =>
    let cIn := if carryIn then 0#32 else 1#32
    let (r1, b1) := overflowingSub rnVal shifted
    let (r, b2) := overflowingSub r1 cIn
    (r, some (!(b1 || b2), subOverflows rnVal shifted r))
  | .sub =>
    let (r, b) := overflowingSub rnVal shifted
    (r, some (!b, subOverflows rnVal shifted r))
  | .rsb =>
    let (r, b) := overflowingSub shifted rnVal
    (r, some (!b, subOverflows shifted rnVal r))

/-- The operations that only compare when they set flags and name the program counter. -/
def DpOp.compares : DpOp → Bool
  | .and | .eor | .add | .sub => true
  | _ => false

/-- The flags of a result. Logical operations take carry from the shifter and keep overflow. -/
def Cpu.setDpFlags (c : Cpu μ) (result : BitVec 32) (cv : Option (Bool × Bool))
    (shiftCarry : Bool) : Cpu μ :=
  match cv with
  | some (carry, overflow) => ((c.setC carry).setV overflow).updateNz result
  | none => (c.updateNz result).setC shiftCarry

/-- An encoding that only sets flags. -/
def DpFields.onlyFlags (f : DpFields) (op : DpOp) : Bool :=
  op.compares && f.rd == 15 && f.setFlags

def execDataProcessingShifted32 (insn : BitVec 32) (c : Cpu μ) : Except ArmError (Cpu μ) :=
  let f := dpFields insn
  let rnVal := c.reg f.rn
  let (shifted, shiftCarry) := shiftWithCarry (c.reg f.rm) f.shiftType f.shiftN c.getC
  match dpOp insn with
  | none => .error (.undefinedInstruction insn)
  | some op =>
    let (result, cv) := op.result f rnVal shifted c.getC
    let c := if f.setFlags then c.setDpFlags result cv shiftCarry else c
    if f.onlyFlags op then .ok c else .ok (c.putReg f.rd result)

/-! ## The same instruction with the helpers of the AArch32 core -/

/-- `decode_imm_shift`. -/
def decodeImmShift (shiftType : BitVec 32) (imm5 : Nat) : ShiftOp × Nat :=
  if shiftType = 0b00#32 then (.lsl, imm5)
  else if shiftType = 0b01#32 then (.lsr, if imm5 = 0 then 32 else imm5)
  else if shiftType = 0b10#32 then (.asr, if imm5 = 0 then 32 else imm5)
  else if imm5 = 0 then (.rrx, 1)
  else (.ror, imm5)

/-- The operand and the carry of the shifter. -/
def DpFields.helperShift (f : DpFields) (value : BitVec 32) (carryIn : Bool) :
    BitVec 32 × Bool :=
  shiftC value (decodeImmShift f.shiftType f.shiftN).1 (decodeImmShift f.shiftType f.shiftN).2
    carryIn

/-- The result of an operation, with `add_with_carry` for the arithmetic ones. -/
def DpOp.helperResult (op : DpOp) (f : DpFields) (rnVal shifted : BitVec 32) (carryIn : Bool) :
    BitVec 32 × Option (Bool × Bool) :=
  let arithmetic (out : BitVec 32 × Bool × Bool) := (out.1, some out.2)
  match op with
  | .add => arithmetic (addWithCarry rnVal shifted false)
  | .adc => arithmetic (addWithCarry rnVal shifted carryIn)
  | .sbc => arithmetic (addWithCarry rnVal (~~~shifted) carryIn)
  | .sub => arithmetic (addWithCarry rnVal (~~~shifted) true)
  | .rsb => arithmetic (addWithCarry shifted (~~~rnVal) true)
  | logical => logical.result f rnVal shifted carryIn

/-- What a state shows of a result: the destination holds it, without bit 0 if it is the
program counter, and the flags are those of the result if they are set at all. -/
structure Shows (op : DpOp) (f : DpFields) (c c' : Cpu μ) (result : BitVec 32)
    (cv : Option (Bool × Bool)) (shiftCarry : Bool) : Prop where
  dest : f.onlyFlags op = false →
    c'.reg f.rd = if f.rd = 15 then result &&& ~~~1#32 else result
  negative : c'.getN = if f.setFlags then decide (result.toInt < 0) else c.getN
  zero : c'.getZ = if f.setFlags then result == 0#32 else c.getZ
  carry : c'.getC = if f.setFlags then cv.elim shiftCarry Prod.fst else c.getC
  overflow : c'.getV = if f.setFlags then cv.elim c.getV Prod.snd else c.getV

/-- The processor ends with the destination and the flags that the helpers give. -/
def AgreesWithHelpers (op : DpOp) (insn : BitVec 32) (c : Cpu μ) : Prop :=
  let f := dpFields insn
  let shift := f.helperShift (c.reg f.rm) c.getC
  let out := op.helperResult f (c.reg f.rn) shift.1 c.getC
  ∃ c', execDataProcessingShifted32 insn c = .ok c' ∧ Shows op f c c' out.1 out.2 shift.2

/-! ## The shifter -/

theorem top_eq (value : BitVec 32) : (value >>> 31 != 0#32) = value.msb :=
  ushiftRight_last_bne_zero value

theorem dpFields_bounds (insn : BitVec 32) : (dpFields insn).rn < 16 ∧ (dpFields insn).rd < 16 ∧
    (dpFields insn).rm < 16 ∧ (dpFields insn).shiftN < 32 := by
  have hmask (x y : BitVec 32) : (x &&& y).toNat ≤ y.toNat := by
    rw [BitVec.toNat_and]
    exact Nat.and_le_right
  have hnibble (x : BitVec 32) : (x &&& 0xF#32).toNat < 16 := Nat.lt_succ_of_le (hmask x 0xF#32)
  refine ⟨hnibble _, hnibble _, hnibble _, ?_⟩
  have h3 : ((insn >>> 12) &&& 0x7#32).toNat ≤ 7 := hmask _ _
  have h2 : ((insn >>> 6) &&& 0x3#32).toNat ≤ 3 := hmask _ _
  simp only [dpFields]
  rw [BitVec.toNat_or, BitVec.toNat_shiftLeft, Nat.shiftLeft_eq]
  refine Nat.or_lt_two_pow (n := 5) ?_ ?_ <;> omega

theorem dpFields_shiftType (insn : BitVec 32) : (dpFields insn).shiftType = 0b00#32 ∨
    (dpFields insn).shiftType = 0b01#32 ∨ (dpFields insn).shiftType = 0b10#32 ∨
    (dpFields insn).shiftType = 0b11#32 := by
  have hle : ((insn >>> 4) &&& 0x3#32).toNat ≤ 3 := by
    rw [BitVec.toNat_and]
    exact Nat.and_le_right
  have hcases : ∀ x : BitVec 32, x.toNat ≤ 3 →
      x = 0b00#32 ∨ x = 0b01#32 ∨ x = 0b10#32 ∨ x = 0b11#32 := by
    intro x hx
    simp only [← BitVec.toNat_inj, BitVec.toNat_ofNat]
    omega
  exact hcases _ hle

/-- The shifters agree on every amount that is not zero, and on shifts to the left. -/
theorem shiftWithCarry_eq (f : DpFields) (value : BitVec 32) (carryIn : Bool)
    (hlt : f.shiftN < 32) (h : f.shiftN ≠ 0 ∨ f.shiftType = 0b00#32) :
    shiftWithCarry value f.shiftType f.shiftN carryIn = f.helperShift value carryIn := by
  unfold DpFields.helperShift
  generalize f.shiftN = n at *
  generalize f.shiftType = shiftType at *
  have hmsb : decide (value.toInt < 0) = value.msb := (BitVec.msb_eq_toInt).symm
  unfold shiftWithCarry decodeImmShift shiftC
  by_cases hzero : n = 0
  · obtain rfl : shiftType = 0b00#32 := h.resolve_left (fun hne => hne hzero)
    simp [hzero]
  by_cases h0 : shiftType = 0b00#32
  · simp [h0, hzero, hlt, Nat.not_le.mpr hlt, ushiftRight_and_one_bne_zero]
  by_cases h1 : shiftType = 0b01#32
  · simp [h1, hzero, hlt, Nat.not_le.mpr hlt, ushiftRight_and_one_bne_zero]
  by_cases h2 : shiftType = 0b10#32
  · simp [h2, hzero, hlt, Nat.not_le.mpr hlt, ushiftRight_and_one_bne_zero]
  · simp [h0, h1, h2, hzero, Nat.mod_eq_of_lt hlt, top_eq]

/-! ## The arithmetic -/

theorem addOverflows_eq (x y r : BitVec 32) :
    addOverflows x y r = (!(x.msb ^^ y.msb) && (x.msb ^^ r.msb)) := by
  rw [addOverflows, top_eq, BitVec.msb_and, BitVec.msb_not, BitVec.msb_xor, BitVec.msb_xor]
  simp

theorem subOverflows_eq (x y r : BitVec 32) :
    subOverflows x y r = ((x.msb ^^ y.msb) && (x.msb ^^ r.msb)) := by
  rw [subOverflows, top_eq, BitVec.msb_and, BitVec.msb_xor, BitVec.msb_xor]

/-- Carry out and overflow of a sum with carry, from the unsigned total and the signs. -/
theorem addWithCarry_eq (x y : BitVec 32) (c : Bool) :
    addWithCarry x y c =
      (x + y + (if c then 1#32 else 0#32), decide (2 ^ 32 ≤ x.toNat + y.toNat + c.toNat),
        addOverflows x y (x + y + if c then 1#32 else 0#32)) := by
  have hx := x.isLt
  have hy := y.isLt
  have hsum : BitVec.ofNat 32 (x.toNat + y.toNat + (if c then 1 else 0)) =
      x + y + (if c then 1#32 else 0#32) := by
    apply BitVec.eq_of_toNat_eq
    cases c <;> simp [BitVec.toNat_add]
  have hnat : (x + y + (if c then 1#32 else 0#32)).toNat =
      (x.toNat + y.toNat + (if c then 1 else 0)) % 2 ^ 32 := by
    rw [← hsum, BitVec.toNat_ofNat]
  simp only [addWithCarry, addOverflows_eq]
  rw [hsum]
  generalize x + y + (if c then 1#32 else 0#32) = r at *
  have hr := r.isLt
  refine Prod.ext rfl (Prod.ext ?_ ?_)
  · rw [Bool.eq_iff_iff]
    cases c <;> simp at hnat ⊢ <;> omega
  · have hsign (b : BitVec 32) : b.msb = true ∧ b.toInt = b.toNat - 2 ^ 32 ∧ 2 ^ 31 ≤ b.toNat ∨
        b.msb = false ∧ b.toInt = b.toNat ∧ b.toNat < 2 ^ 31 := by
      rw [BitVec.msb_eq_decide, BitVec.toInt_eq_toNat_cond]
      simp only [decide_eq_true_eq, decide_eq_false_iff_not]
      split_ifs <;> omega
    rw [Bool.eq_iff_iff]
    rcases hsign x with ⟨hmx, hix, hbx⟩ | ⟨hmx, hix, hbx⟩ <;>
      rcases hsign y with ⟨hmy, hiy, hby⟩ | ⟨hmy, hiy, hby⟩ <;>
      rcases hsign r with ⟨hmr, hir, hbr⟩ | ⟨hmr, hir, hbr⟩ <;>
      cases c <;> simp [hmx, hmy, hmr, hix, hiy, hir] at hnat ⊢ <;> omega

theorem subOverflows_eq_not (x y r : BitVec 32) :
    subOverflows x y r = addOverflows x (~~~y) r := by
  rw [subOverflows_eq, addOverflows_eq, BitVec.msb_not]
  cases x.msb <;> cases y.msb <;> cases r.msb <;> rfl

/-- A difference, its borrow and its overflow are those of the sum with the complement. -/
theorem addWithCarry_not (x y : BitVec 32) (c : Bool) :
    addWithCarry x (~~~y) c =
      (x - y - (if c then 0#32 else 1#32), !decide (x.toNat + c.toNat < y.toNat + 1),
        subOverflows x y (x - y - if c then 0#32 else 1#32)) := by
  have hx := x.isLt
  have hy := y.isLt
  have hdiff : x + ~~~y + (if c then 1#32 else 0#32) = x - y - if c then 0#32 else 1#32 := by
    apply BitVec.eq_of_toNat_eq
    cases c <;> simp [BitVec.toNat_add, BitVec.toNat_sub, BitVec.toNat_not] <;> omega
  rw [addWithCarry_eq, hdiff, subOverflows_eq_not]
  refine Prod.ext rfl (Prod.ext ?_ rfl)
  rw [Bool.eq_iff_iff, BitVec.toNat_not]
  simp only [Bool.not_eq_true', decide_eq_true_eq, decide_eq_false_iff_not]
  omega

/-- The inline arithmetic is that of the helpers. -/
theorem DpOp.result_eq_helperResult (op : DpOp) (f : DpFields) (x y : BitVec 32) (c : Bool) :
    op.result f x y c = op.helperResult f x y c := by
  have hx := x.isLt
  have hy := y.isLt
  cases op with
  | add => simp [DpOp.result, DpOp.helperResult, overflowingAdd, addWithCarry_eq]
  | adc =>
    have hcarry : (decide (2 ^ 32 ≤ x.toNat + y.toNat) ||
        decide (2 ^ 32 ≤ (x + y).toNat + (if c then 1#32 else 0#32).toNat)) =
        decide (2 ^ 32 ≤ x.toNat + y.toNat + c.toNat) := by
      rw [Bool.eq_iff_iff, BitVec.toNat_add]
      cases c <;> simp <;> omega
    simp only [DpOp.helperResult, addWithCarry_eq]
    rw [← hcarry]
    rfl
  | sbc =>
    have hborrow : (decide (x < y) || decide (x - y < if c then 0#32 else 1#32)) =
        decide (x.toNat + c.toNat < y.toNat + 1) := by
      rw [Bool.eq_iff_iff]
      simp only [Bool.or_eq_true, decide_eq_true_eq, BitVec.lt_def, BitVec.toNat_sub]
      cases c
      · simp
        omega
      · simp
    simp only [DpOp.helperResult, addWithCarry_not]
    rw [← hborrow]
    rfl
  | sub =>
    simp only [DpOp.result, DpOp.helperResult, overflowingSub, addWithCarry_not]
    simp [BitVec.lt_def]
  | rsb =>
    simp only [DpOp.result, DpOp.helperResult, overflowingSub, addWithCarry_not]
    simp [BitVec.lt_def]
  | _ => rfl

/-! ## What the processor shows -/

namespace Cpu

variable {c : Cpu μ}

theorem flag_setFlag {i j : Nat} (hj : j < 32) (value : Bool) :
    (c.setFlag i value).flag j = if j = i then value else c.flag j := by
  simp only [flag, setFlag, ushiftRight_and_one_bne_zero]
  have hone : (1#32 <<< i).getLsbD j = decide (j = i) := getLsbD_one_shiftLeft hj
  cases value with
  | true =>
    rw [if_pos rfl, BitVec.getLsbD_or, hone]
    by_cases h : j = i <;> simp [h]
  | false =>
    rw [if_neg (by decide), BitVec.getLsbD_and, BitVec.getLsbD_not, hone]
    by_cases h : j = i <;> simp [h, hj]

theorem reg_putReg {n : Nat} (hn : n < 16) (value : BitVec 32) :
    (c.putReg n value).reg n = if n = 15 then value &&& ~~~1#32 else value := by
  unfold putReg
  by_cases h : n < 13
  · rw [dif_pos h, if_neg (by omega)]
    simp [reg, h, setReg]
  rw [dif_neg h]
  obtain rfl | rfl | rfl : n = 13 ∨ n = 14 ∨ n = 15 := by omega
  · have hsp : (c.setCurrentSp value).currentSp = value := by
      unfold setCurrentSp currentSp
      cases hpsp : c.usesPsp with
      | true => exact if_pos hpsp
      | false => exact if_neg (Bool.eq_false_iff.mp hpsp)
    exact hsp
  · rfl
  · rfl

theorem flag_putReg (n : Nat) (value : BitVec 32) (i : Nat) :
    (c.putReg n value).flag i = c.flag i := by
  have hxpsr : (c.putReg n value).xpsr = c.xpsr := by
    unfold putReg setReg setCurrentSp
    split_ifs <;> rfl
  rw [flag, flag, hxpsr]

theorem setDpFlags_spec (c : Cpu μ) (result : BitVec 32) (cv : Option (Bool × Bool))
    (shiftCarry : Bool) :
    (c.setDpFlags result cv shiftCarry).getN = decide (result.toInt < 0) ∧
      (c.setDpFlags result cv shiftCarry).getZ = (result == 0#32) ∧
      (c.setDpFlags result cv shiftCarry).getC = cv.elim shiftCarry Prod.fst ∧
      (c.setDpFlags result cv shiftCarry).getV = cv.elim c.getV Prod.snd := by
  rcases cv with _ | ⟨carry, overflow⟩ <;>
    simp [setDpFlags, updateNz, setN, setZ, setC, setV, getN, getZ, getC, getV, flag_setFlag]

end Cpu

variable {op : DpOp} {f : DpFields} {insn : BitVec 32}

/-- The instruction shows what it computed. -/
theorem exec_shows (hop : dpOp insn = some op) (c : Cpu μ) (hf : f = dpFields insn)
    {shift : BitVec 32 × Bool}
    (hshift : shift = shiftWithCarry (c.reg f.rm) f.shiftType f.shiftN c.getC)
    {out : BitVec 32 × Option (Bool × Bool)}
    (hout : out = op.result f (c.reg f.rn) shift.1 c.getC) :
    ∃ c', execDataProcessingShifted32 insn c = .ok c' ∧
      Shows op f c c' out.1 out.2 shift.2 := by
  have hrd : f.rd < 16 := hf ▸ (dpFields_bounds insn).2.1
  let flagged := if f.setFlags then c.setDpFlags out.1 out.2 shift.2 else c
  have hexec : execDataProcessingShifted32 insn c =
      if f.onlyFlags op then .ok flagged else .ok (flagged.putReg f.rd out.1) := by
    subst hf hshift hout
    simp only [execDataProcessingShifted32, hop]
    rfl
  have hflags : flagged.getN = (if f.setFlags then decide (out.1.toInt < 0) else c.getN) ∧
      flagged.getZ = (if f.setFlags then out.1 == 0#32 else c.getZ) ∧
      flagged.getC = (if f.setFlags then out.2.elim shift.2 Prod.fst else c.getC) ∧
      flagged.getV = (if f.setFlags then out.2.elim c.getV Prod.snd else c.getV) := by
    cases hs : f.setFlags with
    | true => simpa [flagged, hs] using c.setDpFlags_spec out.1 out.2 shift.2
    | false => simp [flagged, hs]
  obtain ⟨hn, hz, hc, hv⟩ := hflags
  cases honly : f.onlyFlags op with
  | true =>
    rw [honly, if_pos rfl] at hexec
    exact ⟨flagged, hexec, fun h => absurd (honly.symm.trans h) (by decide), hn, hz, hc, hv⟩
  | false =>
    rw [honly, if_neg (by decide)] at hexec
    refine ⟨flagged.putReg f.rd out.1, hexec, fun _ => Cpu.reg_putReg hrd out.1, ?_, ?_, ?_, ?_⟩
    · exact (Cpu.flag_putReg _ _ _).trans hn
    · exact (Cpu.flag_putReg _ _ _).trans hz
    · exact (Cpu.flag_putReg _ _ _).trans hc
    · exact (Cpu.flag_putReg _ _ _).trans hv

/-! ## Where the shifters differ -/

/-- The encodings on which the two computations agree whatever the registers hold: a shift
amount other than zero, a shift to the left, or an `ORR` or `ORN` of a register with itself
that does not set flags, where a shift to the right by 32 does not show. -/
def ShiftsAlike (op : DpOp) (f : DpFields) : Prop :=
  f.shiftN ≠ 0 ∨ f.shiftType = 0b00#32 ∨
    (op = .orr ∨ op = .orn) ∧ f.rn = f.rm ∧ f.rn ≠ 15 ∧ f.shiftType = 0b01#32 ∧
      f.setFlags = false

theorem agreesWithHelpers_of_shiftsAlike (hop : dpOp insn = some op)
    (h : ShiftsAlike op (dpFields insn)) (c : Cpu μ) :
    AgreesWithHelpers op insn c := by
  obtain ⟨c', hexec, hshows⟩ := exec_shows hop c rfl rfl rfl
  refine ⟨c', hexec, ?_⟩
  by_cases hamount : (dpFields insn).shiftN ≠ 0 ∨ (dpFields insn).shiftType = 0b00#32
  · rw [shiftWithCarry_eq _ _ _ (dpFields_bounds insn).2.2.2 hamount,
      DpOp.result_eq_helperResult] at hshows
    exact hshows
  obtain ⟨hzero, htype⟩ := not_or.mp hamount
  obtain ⟨hor, hsame, hpc, hlsr, hkeep⟩ := (h.resolve_left hzero).resolve_left htype
  have hshift : shiftWithCarry (c.reg (dpFields insn).rm) (dpFields insn).shiftType
      (dpFields insn).shiftN c.getC = (c.reg (dpFields insn).rn, c.getC) := by
    rw [hsame]
    exact if_pos (not_not.mp hzero)
  have hhelper : (dpFields insn).helperShift (c.reg (dpFields insn).rm) c.getC =
      (0#32, (c.reg (dpFields insn).rm).msb) := by
    rw [DpFields.helperShift, hlsr, not_not.mp hzero]
    rfl
  -- the other operand already has the bits, and the carry of the shifter is not looked at
  have hresult (y : BitVec 32) : op.result (dpFields insn) y y c.getC =
      op.helperResult (dpFields insn) y 0#32 c.getC := by
    have hones : y ||| ~~~y = y ||| ~~~0#32 := by
      rw [BitVec.or_not_self, BitVec.not_zero, BitVec.or_allOnes]
    rcases hor with rfl | rfl
    · simp [DpOp.result, DpOp.helperResult, hpc]
    · simp only [DpOp.result, DpOp.helperResult, if_neg hpc, hones]
  rw [hshift] at hshows
  simp only [hhelper, ← hresult]
  obtain ⟨hdest, hn, hz, hc, hv⟩ := hshows
  rw [hkeep] at hn hz hc hv
  refine ⟨hdest, ?_, ?_, ?_, ?_⟩ <;> rw [hkeep]
  · exact hn
  · exact hz
  · exact hc
  · exact hv

/-- What two results have in common if one state shows both. -/
theorem Shows.common {c c' : Cpu μ} {r r' : BitVec 32} {cv cv' : Option (Bool × Bool)}
    {b b' : Bool} (h : Shows op f c c' r cv b) (h' : Shows op f c c' r' cv' b') :
    (f.onlyFlags op = false → r &&& ~~~1#32 = r' &&& ~~~1#32) ∧
      (f.setFlags = true → (r == 0#32) = (r' == 0#32) ∧
        cv.elim b Prod.fst = cv'.elim b' Prod.fst) := by
  constructor
  · intro hwrites
    have heq := (h.dest hwrites).symm.trans (h'.dest hwrites)
    split_ifs at heq
    · exact heq
    · rw [heq]
  · intro hset
    have hz := h.zero.symm.trans h'.zero
    have hc := h.carry.symm.trans h'.carry
    rw [hset] at hz hc
    exact ⟨hz, hc⟩

/-- Two results that no destination and no comparison confuses. -/
def Apart (op : DpOp) (r r' : BitVec 32) : Prop :=
  r &&& ~~~1#32 ≠ r' &&& ~~~1#32 ∧ (op.compares = true → (r == 0#32) ≠ (r' == 0#32))

instance (op : DpOp) (r r' : BitVec 32) : Decidable (Apart op r r') :=
  inferInstanceAs (Decidable (_ ∧ _))

theorem Apart.not_shows {c c' : Cpu μ} {r r' : BitVec 32} {cv cv' : Option (Bool × Bool)}
    {b b' : Bool} (hapart : Apart op r r') (h : Shows op f c c' r cv b) :
    ¬ Shows op f c c' r' cv' b' := by
  intro h'
  obtain ⟨hvalue, hflags⟩ := h.common h'
  cases honly : f.onlyFlags op with
  | false => exact hapart.1 (hvalue honly)
  | true =>
    simp only [DpFields.onlyFlags, Bool.and_eq_true] at honly
    exact hapart.2 honly.1.1 (hflags honly.2).1

section Probe

variable [Inhabited μ]

/-- A handler-mode state with given registers and carry flag. -/
def probe (value : Nat → BitVec 32) (carry : Bool) : Cpu μ where
  regs n := value n
  spMain := value 13
  spProcess := 0#32
  lr := value 14
  pc := value 15
  xpsr := if carry then 1#32 <<< 29 else 0#32
  faultmask := false
  control := 0#8
  threadMode := false
  currentException := 0#16
  memory := default
  nvic := ⟨0, fun _ => 0#32, fun _ => 0#32, 0#16, 0#32, Nat.zero_le 496⟩
  vtor := 0#32
  vfp := none

theorem reg_probe (value : Nat → BitVec 32) (carry : Bool) {n : Nat} (hn : n < 16) :
    (probe value carry : Cpu μ).reg n = value n := by
  by_cases h : n < 13
  · exact dif_pos h
  · obtain rfl | rfl | rfl : n = 13 ∨ n = 14 ∨ n = 15 := by omega
    · rfl
    · rfl
    · rfl

theorem getC_probe (value : Nat → BitVec 32) (carry : Bool) :
    (probe value carry : Cpu μ).getC = carry := by
  show ((if carry then 1#32 <<< 29 else 0#32) >>> 29 &&& 1#32 != 0#32) = carry
  cases carry <;> decide

/-- With an amount of zero, one state shows the result with the operand as it is and, where
the computations agree, the result with the operand of the helpers. -/
theorem probe_shows (hop : dpOp insn = some op) {value : Nat → BitVec 32} {carry : Bool}
    (h : AgreesWithHelpers op insn (probe value carry : Cpu μ))
    (hzero : (dpFields insn).shiftN = 0) (hf : f = dpFields insn) {shift : BitVec 32 × Bool}
    (hshift : f.helperShift (value f.rm) carry = shift) :
    ∃ c' : Cpu μ,
      Shows op f (probe value carry) c' (op.helperResult f (value f.rn) (value f.rm) carry).1
        (op.helperResult f (value f.rn) (value f.rm) carry).2 carry ∧
      Shows op f (probe value carry) c' (op.helperResult f (value f.rn) shift.1 carry).1
        (op.helperResult f (value f.rn) shift.1 carry).2 shift.2 := by
  obtain ⟨hrn, -, hrm, -⟩ := dpFields_bounds insn
  obtain ⟨c', hexec, hshows⟩ := exec_shows (μ := μ) hop (probe value carry) rfl rfl rfl
  obtain ⟨c'', hexec', hshows'⟩ := h
  obtain rfl := Except.ok.inj (hexec.symm.trans hexec')
  subst hf
  simp only [getC_probe, reg_probe _ _ hrn, reg_probe _ _ hrm, hshift] at hshows'
  have hnone : shiftWithCarry (value (dpFields insn).rm) (dpFields insn).shiftType
      (dpFields insn).shiftN carry = (value (dpFields insn).rm, carry) := if_pos hzero
  simp only [getC_probe, reg_probe _ _ hrn, reg_probe _ _ hrm, hnone,
    DpOp.result_eq_helperResult] at hshows
  exact ⟨c', hshows, hshows'⟩

/-- The operand of the helpers for the encodings with an amount of zero. -/
theorem helperShift_lsr (hzero : f.shiftN = 0) (h : f.shiftType = 0b01#32) (y : BitVec 32)
    (c : Bool) : f.helperShift y c = (0#32, y.msb) := by
  rw [DpFields.helperShift, hzero, h]
  rfl

theorem helperShift_asr (hzero : f.shiftN = 0) (h : f.shiftType = 0b10#32) (y : BitVec 32)
    (c : Bool) :
    f.helperShift y c = (if y.msb then 0xFFFFFFFF#32 else 0#32, y.msb) := by
  rw [DpFields.helperShift, hzero, h]
  rfl

theorem helperShift_rrx (hzero : f.shiftN = 0) (h : f.shiftType = 0b11#32) (y : BitVec 32)
    (c : Bool) :
    f.helperShift y c = ((y >>> 1) ||| (if c then 1#32 <<< 31 else 0#32), y.getLsbD 0) := by
  rw [DpFields.helperShift, hzero, h]
  cases c <;> rfl

/-- A register value on which an operation, other than `ORR` and `ORN`, tells the operand as
it is from the operand of the helpers. -/
def DpOp.telling : DpOp → BitVec 32
  | .add => 0x80000000#32
  | _ => 4#32

/-- Apart from `ORR`, `ORN` and `PKH` the fields do not change the result. -/
theorem DpOp.helperResult_congr (hop : op ≠ .orr ∧ op ≠ .orn ∧ op ≠ .pkh) (f f' : DpFields) :
    op.helperResult f = op.helperResult f' := by
  obtain ⟨horr, horn, hpkh⟩ := hop
  cases op <;> first | rfl | contradiction

theorem apart_telling (hop : op ≠ .orr ∧ op ≠ .orn ∧ op ≠ .pkh) (f : DpFields)
    (hzero : f.shiftN = 0)
    (htype : f.shiftType = 0b01#32 ∨ f.shiftType = 0b10#32 ∨ f.shiftType = 0b11#32) :
    Apart op (op.helperResult f op.telling op.telling false).1
      (op.helperResult f op.telling (f.helperShift op.telling false).1 false).1 := by
  rw [op.helperResult_congr hop f ⟨false, 0, 0, 0, 0#32, 0, false⟩]
  obtain ⟨horr, horn, hpkh⟩ := hop
  rcases htype with h | h | h
  · rw [helperShift_lsr hzero h]
    cases op <;> first | contradiction | decide
  · rw [helperShift_asr hzero h]
    cases op <;> first | contradiction | decide
  · rw [helperShift_rrx hzero h]
    cases op <;> first | contradiction | decide

theorem helperResult_orr_orn (hop : op = .orr ∨ op = .orn) (f : DpFields) (x y : BitVec 32)
    (c : Bool) :
    op.helperResult f x y c =
      ((if f.rn = 15 then 0#32 else x) ||| (if op = .orn then ~~~y else y), none) := by
  rcases hop with rfl | rfl <;> by_cases hpc : f.rn = 15 <;>
    simp [DpOp.helperResult, DpOp.result, hpc]

/-- The Cortex-M agrees with the helpers on an encoding, whatever the registers and flags,
exactly when the encoding shifts alike. -/
theorem agreesWithHelpers_iff {insn : BitVec 32} {op : DpOp} (hop : dpOp insn = some op)
    (hpkh : op ≠ .pkh) :
    (∀ c : Cpu μ, AgreesWithHelpers op insn c) ↔ ShiftsAlike op (dpFields insn) := by
  refine ⟨fun h => ?_, agreesWithHelpers_of_shiftsAlike hop⟩
  by_contra hnot
  obtain ⟨hamount, htype, hexcept⟩ : (dpFields insn).shiftN = 0 ∧
      (dpFields insn).shiftType ≠ 0b00#32 ∧ _ := by
    simpa only [ShiftsAlike, not_or, not_not] using hnot
  have htypes := (dpFields_shiftType insn).resolve_left htype
  have hshow (value : Nat → BitVec 32) (carry : Bool) :=
    probe_shows hop (h (probe value carry)) hamount rfl rfl
  generalize dpFields insn = f at *
  by_cases hplain : op ≠ .orr ∧ op ≠ .orn
  · obtain ⟨c', hown, hhelper⟩ := hshow (fun _ => op.telling) false
    exact (apart_telling ⟨hplain.1, hplain.2, hpkh⟩ f hamount htypes).not_shows hown hhelper
  have hor : op = .orr ∨ op = .orn := by tauto
  -- each case names registers that make the results differ, or the carry
  simp only [helperResult_orr_orn hor] at hshow
  by_cases hpc : f.rn = 15
  · obtain ⟨c', hown, hhelper⟩ := hshow (fun _ => 4#32) false
    simp only [hpc, if_true] at hown hhelper
    refine Apart.not_shows ?_ hown hhelper
    rcases htypes with hlsr | hasr | hrrx
    · rw [helperShift_lsr hamount hlsr]
      rcases hor with rfl | rfl <;> decide
    · rw [helperShift_asr hamount hasr]
      rcases hor with rfl | rfl <;> decide
    · rw [helperShift_rrx hamount hrrx]
      rcases hor with rfl | rfl <;> decide
  simp only [hpc, if_false] at hshow
  rcases htypes with hlsr | hasr | hrrx
  · cases hset : f.setFlags with
    | true =>
      obtain ⟨c', hown, hhelper⟩ := hshow (fun _ => 4#32) true
      rw [helperShift_lsr hamount hlsr] at hhelper
      have hcarry : true = (4#32).msb := ((hown.common hhelper).2 hset).2
      exact absurd hcarry (by decide)
    | false =>
      have hne : f.rn ≠ f.rm := fun hsame => hexcept ⟨hor, hsame, hpc, hlsr, hset⟩
      obtain ⟨c', hown, hhelper⟩ := hshow (fun n => if n = f.rm then 4#32 else 0#32) false
      simp only [hne, if_true, if_false, helperShift_lsr hamount hlsr] at hown hhelper
      refine Apart.not_shows ?_ hown hhelper
      rcases hor with rfl | rfl <;> decide
  · obtain ⟨c', hown, hhelper⟩ := hshow (fun _ => 0x80000000#32) false
    rw [helperShift_asr hamount hasr] at hhelper
    refine Apart.not_shows ?_ hown hhelper
    rcases hor with rfl | rfl <;> decide
  · obtain ⟨c', hown, hhelper⟩ := hshow (fun _ => 4#32) false
    rw [helperShift_rrx hamount hrrx] at hhelper
    refine Apart.not_shows ?_ hown hhelper
    rcases hor with rfl | rfl <;> decide

/-- `ADD.W r0, r1, r2, LSL #3` with registers that hold their numbers. -/
theorem addLsl_agreesWithHelpers :
    ShiftsAlike .add (dpFields 0xEB0100C2#32) ∧
      AgreesWithHelpers .add 0xEB0100C2#32 (probe (BitVec.ofNat 32) true : Cpu Unit) := by
  have halike : ShiftsAlike .add (dpFields 0xEB0100C2#32) := .inl (by decide)
  exact ⟨halike, (agreesWithHelpers_iff rfl (by decide)).mpr halike _⟩

/-- `MOVS.W r0, r1, LSR #32` copies the register. -/
theorem movsLsr32_not_agreesWithHelpers :
    ¬ AgreesWithHelpers .orr 0xEA5F0011#32 (probe (BitVec.ofNat 32) false : Cpu Unit) := by
  rintro ⟨c', hexec, hshows⟩
  obtain rfl := Except.ok.inj hexec
  have hdest := hshows.dest rfl
  revert hdest
  decide

end Probe

end Rax.CortexM

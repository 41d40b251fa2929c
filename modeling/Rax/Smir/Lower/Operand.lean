import Mathlib.Data.List.GetD
import Rax.Smir.Lift.ModRm

/-!
# Operands of the x86 emitter

The REX, ModRM, SIB and displacement bytes of `smir/lower/x86_64/emitter.rs`, and what the lifter's
decoder reads from them. Registers with low bits 100 need a SIB byte, those with low bits 101 a
displacement; an absolute address is cut to 32 bits, which the decoder extends by their sign.
-/

namespace Rax.Smir.Lower

open Lift

inductive PhysReg
  | rax | rcx | rdx | rbx | rsp | rbp | rsi | rdi
  | r8 | r9 | r10 | r11 | r12 | r13 | r14 | r15
  | mm (idx : Byte) | xmm (idx : Byte) | ymm (idx : Byte) | zmm (idx : Byte)
  deriving DecidableEq, Repr

namespace PhysReg

def encoding : PhysReg → Byte
  | rax => 0
  | rcx => 1
  | rdx => 2
  | rbx => 3
  | rsp => 4
  | rbp => 5
  | rsi => 6
  | rdi => 7
  | r8 => 8
  | r9 => 9
  | r10 => 10
  | r11 => 11
  | r12 => 12
  | r13 => 13
  | r14 => 14
  | r15 => 15
  | mm idx | xmm idx | ymm idx | zmm idx => idx

def isExtended (r : PhysReg) : Bool := 8 ≤ r.encoding

def low3 (r : PhysReg) : Byte := r.encoding &&& 0x7

/-- A general purpose register. -/
def isGpr : PhysReg → Bool
  | mm _ | xmm _ | ymm _ | zmm _ => false
  | _ => true

end PhysReg

/-! ## The emitter -/

def rexByte (w r x b : Bool) : Byte :=
  0x40 ||| (if w then 0x08 else 0) ||| (if r then 0x04 else 0) ||| (if x then 0x02 else 0) |||
    (if b then 0x01 else 0)

/-- The REX prefix, left out if it says nothing. -/
def emitRex (w : Bool) (r : PhysReg) (x : Option PhysReg) (b : PhysReg) : Option Byte :=
  let rex := rexByte w r.isExtended (x.any PhysReg.isExtended) b.isExtended
  if rex ≠ 0x40 then some rex else none

def emitModrm (mode : Byte) (reg rm : PhysReg) : Byte := mode <<< 6 ||| reg.low3 <<< 3 ||| rm.low3

def scaleBits (scale : Byte) : Byte :=
  if scale = 1 then 0 else if scale = 2 then 1 else if scale = 4 then 2 else if scale = 8 then 3
  else 0

def emitSib (scale : Byte) (index base : PhysReg) : Byte :=
  scaleBits scale <<< 6 ||| index.low3 <<< 3 ||| base.low3

def leBytes32 (v : BitVec 32) : List Byte :=
  [v.setWidth 8, (v >>> 8).setWidth 8, (v >>> 16).setWidth 8, (v >>> 24).setWidth 8]

/-- How a displacement is stored: its mode and its bytes. -/
inductive DispForm
  | none | byte | word
  deriving DecidableEq, Repr

namespace DispForm

def mode : DispForm → Byte
  | none => 0
  | byte => 1
  | word => 2

def emit (disp : BitVec 32) : DispForm → List Byte
  | none => []
  | byte => [disp.setWidth 8]
  | word => leBytes32 disp

/-- The choice of both `emit_modrm_mem_disp` and `emit_modrm_sib_disp`. -/
def choose (base : PhysReg) (disp : BitVec 32) : DispSize → DispForm
  | .auto =>
    if disp = 0 ∧ base ≠ .rbp ∧ base ≠ .r13 then none
    else if -128 ≤ disp.toInt ∧ disp.toInt ≤ 127 then byte
    else word
  | .disp8 => byte
  | .disp32 => word

end DispForm

def emitModrmMemDisp (reg base : PhysReg) (disp : BitVec 32) (size : DispSize) : List Byte :=
  let form := DispForm.choose base disp size
  (if base = .rsp ∨ base = .r12 then [emitModrm form.mode reg .rsp, emitSib 1 .rsp base]
    else [emitModrm form.mode reg base]) ++ form.emit disp

def emitModrmSibDisp (reg : PhysReg) (base : Option PhysReg) (index : PhysReg) (scale : Byte)
    (disp : BitVec 32) (size : DispSize) : List Byte :=
  match base with
  | some b =>
    let form := DispForm.choose b disp size
    [emitModrm form.mode reg .rsp, emitSib scale index b] ++ form.emit disp
  | none => [emitModrm 0 reg .rsp, emitSib scale index .rbp] ++ leBytes32 disp

def emitModrmAbs (reg : PhysReg) (addr : Word) : List Byte :=
  [emitModrm 0 reg .rsp, 0x25] ++ leBytes32 (addr.setWidth 32)

def emitModrmRr (reg rm : PhysReg) : List Byte := [emitModrm 3 reg rm]

/-! ## Operands -/

inductive Operand
  | reg (rm : PhysReg)
  | mem (base : PhysReg) (disp : BitVec 32) (size : DispSize)
  | sib (base : Option PhysReg) (index : PhysReg) (scale : Byte) (disp : BitVec 32)
      (size : DispSize)
  | abs (addr : Word)

/-- A displacement that the requested size can hold. -/
def Representable (disp : BitVec 32) : DispSize → Prop
  | .disp8 => -128 ≤ disp.toInt ∧ disp.toInt ≤ 127
  | _ => True

namespace Operand

/-- What is passed to `emit_rex` beside the register. -/
def rexIndex : Operand → Option PhysReg
  | sib _ index _ _ _ => some index
  | _ => none

def rexBase : Operand → PhysReg
  | reg rm => rm
  | mem base _ _ => base
  | sib base _ _ _ _ => base.getD .rbp
  | abs _ => .rax

def emit (r : PhysReg) : Operand → List Byte
  | reg rm => emitModrmRr r rm
  | mem base disp size => emitModrmMemDisp r base disp size
  | sib base index scale disp size => emitModrmSibDisp r base index scale disp size
  | abs addr => emitModrmAbs r addr

/-- Operands as addresses have them: general registers, no RSP as the index, a scale that exists
and a displacement that fits. -/
def Admissible : Operand → Prop
  | reg _ => True
  | mem base disp size => base.isGpr = true ∧ Representable disp size
  | sib base index scale disp size =>
    (∀ b, base = some b → b.isGpr = true ∧ Representable disp size) ∧ index.isGpr = true ∧
      index ≠ .rsp ∧ (scale = 1 ∨ scale = 2 ∨ scale = 4 ∨ scale = 8)
  | abs _ => True

/-- The address for given contents of the registers. -/
def address (regs : Byte → Word) : Operand → Word
  | reg _ => 0
  | mem base disp _ => regs base.encoding + disp.signExtend 64
  | sib base index scale disp _ =>
    base.elim 0 (fun b => regs b.encoding) + regs index.encoding * scale.setWidth 64 +
      disp.signExtend 64
  | abs addr => addr

end Operand

/-- The address of a decoded operand that is neither relative to RIP nor in a segment. -/
def linear (a : X86Address) (regs : Byte → Word) : Word :=
  a.base.elim 0 regs + a.index.elim 0 (fun i => regs i * a.scale.setWidth 64) + a.disp

/-- A decoded address of plain 64 bits with these parts. -/
structure AddressIs (a : X86Address) (base index : Option Byte) (scale : Byte) (disp : Word) :
    Prop where
  base : a.base = base
  index : a.index = index
  scale : a.scale = scale
  disp : a.disp = disp
  ripRelative : a.ripRelative = false
  addressWidth : a.addressWidth = .w64
  segment : a.segment = none

/-- A decoded address is that of an operand. -/
def Operand.IsAddress (a : X86Address) : Operand → Prop
  | .reg _ => False
  | .mem base disp _ => AddressIs a (some base.encoding) none 1 (disp.signExtend 64)
  | .sib base index scale disp _ =>
    AddressIs a (base.map PhysReg.encoding) (some index.encoding) scale (disp.signExtend 64)
  | .abs addr => AddressIs a none none 1 addr

/-- The decoder has found the operand. -/
def Operand.Found (m : ModRm) : Operand → Prop
  | .reg rm => m.isMemory = false ∧ m.addr = none ∧ m.rm = rm.encoding
  | op => ∃ a, m.addr = some a ∧ op.IsAddress a

/-- Decoding the bytes of an operand, whatever follows them, gives the register and the operand
back and uses the bytes up. -/
def RoundTrips (w : Bool) (r : PhysReg) (op : Operand) : Prop :=
  ∀ rest pc, ∃ m, decodeModrm (op.emit r ++ rest)
      { rex := emitRex w r op.rexIndex op.rexBase } pc = .ok m ∧
    m.reg = r.encoding ∧ op.Found m ∧ m.bytesConsumed = (op.emit r).length ∧
    ∀ a regs, m.addr = some a → linear a regs = op.address regs

/-! ## Fields of the bytes -/

section Rex

variable (w : Bool) (r : PhysReg) (x : Option PhysReg) (b : PhysReg)

theorem rex_emitRex :
    ({ rex := emitRex w r x b } : X86Prefix).rexR = (if r.isExtended then 8 else 0) ∧
      ({ rex := emitRex w r x b } : X86Prefix).rexX =
        (if x.any PhysReg.isExtended then 8 else 0) ∧
      ({ rex := emitRex w r x b } : X86Prefix).rexB = if b.isExtended then 8 else 0 := by
  unfold emitRex
  generalize r.isExtended = r', x.any PhysReg.isExtended = x', b.isExtended = b'
  cases w <;> cases r' <;> cases x' <;> cases b' <;> exact ⟨rfl, rfl, rfl⟩

end Rex

theorem fields_of_nat : ∀ mode < 4, ∀ a < 8, ∀ b < 8,
    (BitVec.ofNat 8 mode <<< 6 ||| BitVec.ofNat 8 a <<< 3 ||| BitVec.ofNat 8 b) >>> 6 =
        BitVec.ofNat 8 mode ∧
      (BitVec.ofNat 8 mode <<< 6 ||| BitVec.ofNat 8 a <<< 3 ||| BitVec.ofNat 8 b) >>> 3 &&& 0x7 =
        BitVec.ofNat 8 a ∧
      (BitVec.ofNat 8 mode <<< 6 ||| BitVec.ofNat 8 a <<< 3 ||| BitVec.ofNat 8 b) &&& 0x7 =
        BitVec.ofNat 8 b := by
  decide +kernel

theorem fields {mode a b : Byte} (hmode : mode.toNat < 4) (ha : a.toNat < 8) (hb : b.toNat < 8) :
    (mode <<< 6 ||| a <<< 3 ||| b) >>> 6 = mode ∧
      (mode <<< 6 ||| a <<< 3 ||| b) >>> 3 &&& 0x7 = a ∧
      (mode <<< 6 ||| a <<< 3 ||| b) &&& 0x7 = b := by
  have h := fields_of_nat mode.toNat hmode a.toNat ha b.toNat hb
  rwa [BitVec.ofNat_toNat, BitVec.ofNat_toNat, BitVec.ofNat_toNat, BitVec.setWidth_eq,
    BitVec.setWidth_eq, BitVec.setWidth_eq] at h

namespace PhysReg

variable (r : PhysReg)

theorem low3_lt : r.low3.toNat < 8 := by
  rw [low3, BitVec.toNat_and]
  exact Nat.lt_of_le_of_lt Nat.and_le_right (by decide)

theorem low3_or_eq_iff :
    (r.low3 ||| if r.isExtended then 8 else 0) = r.encoding ↔ r.encoding.toNat < 16 := by
  have hall : ∀ e : Byte, ((e &&& 0x7) ||| if decide (8 ≤ e) then 8 else 0) = e ↔ e.toNat < 16 := by
    decide +kernel
  exact hall r.encoding

variable {r}

theorem encoding_lt_of_isGpr (h : r.isGpr = true) : r.encoding.toNat < 16 := by
  cases r <;> first | decide | cases h

theorem low3_or_of_isGpr (h : r.isGpr = true) :
    (r.low3 ||| if r.isExtended then 8 else 0) = r.encoding :=
  r.low3_or_eq_iff.mpr (encoding_lt_of_isGpr h)

theorem low3_eq_four_iff (h : r.isGpr = true) : r.low3 = 4 ↔ r = rsp ∨ r = r12 := by
  cases r <;> first | decide | cases h

theorem low3_eq_five_iff (h : r.isGpr = true) : r.low3 = 5 ↔ r = rbp ∨ r = r13 := by
  cases r <;> first | decide | cases h

theorem encoding_ne_four (h : r.isGpr = true) (hr : r ≠ rsp) : r.encoding ≠ 4 := by
  cases r <;> first | decide | exact absurd rfl hr | cases h

end PhysReg

theorem emitModrm_fields {mode : Byte} (hmode : mode.toNat < 4) (reg rm : PhysReg) :
    emitModrm mode reg rm >>> 6 = mode ∧ emitModrm mode reg rm >>> 3 &&& 0x7 = reg.low3 ∧
      emitModrm mode reg rm &&& 0x7 = rm.low3 :=
  fields hmode reg.low3_lt rm.low3_lt

theorem scaleBits_of_mem {scale : Byte} (h : scale = 1 ∨ scale = 2 ∨ scale = 4 ∨ scale = 8) :
    (scaleBits scale).toNat < 4 ∧ (1 : Byte) <<< (scaleBits scale).toNat = scale := by
  rcases h with rfl | rfl | rfl | rfl <;> decide

theorem leBytes32_append (v : BitVec 32) :
    ((v >>> 24).setWidth 8 ++ (v >>> 16).setWidth 8 ++ (v >>> 8).setWidth 8 ++
      v.setWidth 8 : BitVec 32) = v := by
  refine BitVec.eq_of_getLsbD_eq fun i hi => ?_
  simp only [BitVec.getLsbD_append, BitVec.getLsbD_setWidth, BitVec.getLsbD_ushiftRight]
  by_cases h8 : i < 8
  · simp [h8]
  by_cases h16 : i < 16
  · have hi₁ : 8 + (i - 8) = i := by omega
    simp [h8, hi₁, show i - 8 < 8 by omega]
  have h8' : ¬i - 8 < 8 := by omega
  by_cases h24 : i < 24
  · have hi₂ : 16 + (i - 8 - 8) = i := by omega
    simp [h8, hi₂, h8', show i - 8 - 8 < 8 by omega]
  · have hi₃ : 24 + (i - 8 - 8 - 8) = i := by omega
    simp [h8, hi₃, h8', show ¬i - 8 - 8 < 8 by omega, show i - 8 - 8 - 8 < 8 by omega]

/-! ## Reading displacements -/

theorem readDisp32_append (front rest : List Byte) (v : BitVec 32) (pc : Word) :
    readDisp32 (front ++ (leBytes32 v ++ rest)) pc front.length = .ok (v.signExtend 64) := by
  have hget : ∀ k, (front ++ (leBytes32 v ++ rest)).getD (front.length + k) 0 =
      (leBytes32 v ++ rest).getD k 0 := fun k => by
    rw [List.getD_append_right _ _ _ _ (Nat.le_add_right _ _), Nat.add_sub_cancel_left]
  unfold readDisp32
  rw [if_neg]
  · have h0 := hget 0
    rw [Nat.add_zero] at h0
    rw [hget, hget, hget, h0]
    exact congrArg (fun u : BitVec 32 => Except.ok (u.signExtend 64)) (leBytes32_append v)
  · simp [leBytes32]

theorem readDisp8_append (front rest : List Byte) (b : Byte) (pc : Word) :
    readDisp8 (front ++ b :: rest) pc front.length = .ok (b.signExtend 64) := by
  unfold readDisp8
  rw [if_neg]
  · rw [List.getD_append_right _ _ _ _ (Nat.le_refl _), Nat.sub_self]
    rfl
  · simp

/-- A decoded address with the displacement of a form. -/
def DispForm.apply (disp : BitVec 32) (a : X86Address) : DispForm → X86Address
  | none => a
  | byte => { a with disp := (disp.setWidth 8).signExtend 64, dispSize := .disp8 }
  | word => { a with disp := disp.signExtend 64, dispSize := .disp32 }

theorem decodeDisp_append (form : DispForm) (disp : BitVec 32) (a : X86Address)
    (front rest : List Byte) (pc : Word) :
    decodeDisp (front ++ (form.emit disp ++ rest)) pc form.mode a front.length =
      .ok (form.apply disp a, front.length + (form.emit disp).length) := by
  cases form with
  | none => rfl
  | byte =>
    unfold decodeDisp
    rw [if_pos (by decide)]
    show (readDisp8 (front ++ disp.setWidth 8 :: rest) pc front.length >>= _) = _
    rw [readDisp8_append]
    rfl
  | word =>
    unfold decodeDisp
    rw [if_neg (by decide), if_pos (by decide)]
    show (readDisp32 (front ++ (leBytes32 disp ++ rest)) pc front.length >>= _) = _
    rw [readDisp32_append]
    rfl

theorem signExtend_low_byte {disp : BitVec 32} (h : -128 ≤ disp.toInt ∧ disp.toInt ≤ 127) :
    (disp.setWidth 8).signExtend 64 = disp.signExtend 64 := by
  have hbyte : (disp.setWidth 8).toInt = disp.toInt := by
    have hlt := disp.isLt
    rw [BitVec.toInt_setWidth, Int.bmod]
    rw [BitVec.toInt_eq_toNat_cond] at h ⊢
    split_ifs at h ⊢ <;> omega
  apply BitVec.eq_of_toInt_eq
  rw [BitVec.toInt_signExtend_of_le (by decide), BitVec.toInt_signExtend_of_le (by decide), hbyte]

/-! ## Decoding an operand -/

variable {a : X86Address}

/-- What the decoder makes of a memory operand, from what it makes of its base and index. -/
theorem decodeModrm_of_base {form : DispForm} {r rm : PhysReg} {front : List Byte}
    {pfx : X86Prefix} {pc : Word} {disp : BitVec 32} (tail rest : List Byte)
    (hfront : front = emitModrm form.mode r rm :: tail)
    (hbase : decodeBase (front ++ (form.emit disp ++ rest)) pfx pc form.mode rm.low3
      (rm.low3 ||| pfx.rexB) = .ok (a, front.length)) :
    decodeModrm (front ++ (form.emit disp ++ rest)) pfx pc =
      .ok { byte := emitModrm form.mode r rm, modBits := form.mode, reg := r.low3 ||| pfx.rexR,
            rm := rm.low3 ||| pfx.rexB, isMemory := true, addr := some (form.apply disp a),
            bytesConsumed := front.length + (form.emit disp).length } := by
  have hmode : form.mode.toNat < 4 ∧ form.mode ≠ 3 := by cases form <;> decide
  obtain ⟨hmod, hreg, hrm⟩ := emitModrm_fields hmode.1 r rm
  have hdisp := decodeDisp_append form disp a front rest pc
  subst hfront
  unfold decodeModrm
  dsimp only [List.cons_append]
  rw [hmod, hreg, hrm, if_neg hmode.2]
  rw [List.cons_append] at hbase hdisp
  rw [hbase]
  show (decodeDisp _ pc form.mode a _ >>= _) = _
  rw [hdisp]
  rfl

section Sib

variable {scale : Byte} (hscale : (scaleBits scale).toNat < 4) (index base : PhysReg)
  (modrm : Byte) (rest : List Byte) (rex : Option Byte) (pc : Word) {mode : Byte}

include hscale

/-- Base and index of a SIB byte, without the fifth bits of vector prefixes. -/
theorem decodeSib_base (hbase : ¬(base.low3 = 5 ∧ mode = 0)) :
    decodeSib (modrm :: emitSib scale index base :: rest) { rex } pc mode =
      .ok ({ X86Prefix.indexed { rex } ((1 : Byte) <<< (scaleBits scale).toNat)
          (index.low3 ||| X86Prefix.rexX { rex }) with
        base := some (base.low3 ||| X86Prefix.rexB { rex }) }, 2) := by
  obtain ⟨hs, hi, hb⟩ := fields hscale index.low3_lt base.low3_lt
  have hsib : (modrm :: emitSib scale index base :: rest).getD 1 0 = emitSib scale index base := rfl
  unfold decodeSib
  rw [if_neg (by simp), hsib]
  unfold emitSib
  dsimp only
  rw [hs, hi, hb, if_neg hbase]
  simp

/-- An index and a displacement of 32 bits alone. -/
theorem decodeSib_disp (hbase : base.low3 = 5) (disp : BitVec 32) :
    decodeSib (modrm :: emitSib scale index base :: (leBytes32 disp ++ rest)) { rex } pc 0 =
      .ok ({ X86Prefix.indexed { rex } ((1 : Byte) <<< (scaleBits scale).toNat)
          (index.low3 ||| X86Prefix.rexX { rex }) with
        disp := disp.signExtend 64, dispSize := .disp32 }, 6) := by
  obtain ⟨hs, hi, hb⟩ := fields hscale index.low3_lt base.low3_lt
  have hsib : (modrm :: emitSib scale index base :: (leBytes32 disp ++ rest)).getD 1 0 =
      emitSib scale index base := rfl
  have hdisp : readDisp32 (modrm :: emitSib scale index base :: (leBytes32 disp ++ rest)) pc 2 =
      .ok (disp.signExtend 64) :=
    readDisp32_append [modrm, emitSib scale index base] rest disp pc
  unfold decodeSib
  rw [if_neg (by simp), hsib]
  dsimp only
  rw [show emitSib scale index base >>> 6 = _ from hs,
    show emitSib scale index base >>> 3 &&& 0x7 = _ from hi,
    show emitSib scale index base &&& 0x7 = _ from hb, if_pos ⟨hbase, rfl⟩]
  rw [hdisp]
  simp

end Sib

/-! ## The round trip -/

theorem Operand.IsAddress.linear {op : Operand} (h : op.IsAddress a) (regs : Byte → Word) :
    Lower.linear a regs = op.address regs := by
  cases op with
  | reg rm => exact h.elim
  | mem base disp size =>
    unfold Lower.linear
    rw [h.base, h.index, h.disp]
    simp [address]
  | sib base index scale disp size =>
    unfold Lower.linear
    rw [h.base, h.index, h.scale, h.disp]
    cases base <;> rfl
  | abs addr =>
    unfold Lower.linear
    rw [h.base, h.index, h.disp]
    simp [address]

section RoundTrips

variable {w : Bool} {r : PhysReg} {op : Operand}

/-- The round trip of a memory operand from what the decoder makes of it. -/
theorem roundTrips_iff_of_memory (hop : ∀ rm, op ≠ .reg rm)
    (hdecode : ∀ rest pc, ∃ m, decodeModrm (op.emit r ++ rest)
        { rex := emitRex w r op.rexIndex op.rexBase } pc = .ok m ∧
      m.reg = (r.low3 ||| if r.isExtended then 8 else 0) ∧ m.addr = some a ∧
      m.bytesConsumed = (op.emit r).length) :
    RoundTrips w r op ↔ r.encoding.toNat < 16 ∧ op.IsAddress a := by
  have hfound : ∀ m, op.Found m ↔ ∃ b, m.addr = some b ∧ op.IsAddress b := by
    intro m
    cases op with
    | reg rm => exact absurd rfl (hop rm)
    | mem => exact Iff.rfl
    | sib => exact Iff.rfl
    | abs => exact Iff.rfl
  constructor
  · intro h
    obtain ⟨m, hm, hreg, haddr, -⟩ := hdecode [] 0
    obtain ⟨m', hm', hreg', hop', -⟩ := h [] 0
    rw [hm] at hm'
    cases hm'
    obtain ⟨b, hb, hisb⟩ := (hfound m).mp hop'
    rw [haddr] at hb
    cases hb
    exact ⟨r.low3_or_eq_iff.mp (hreg.symm.trans hreg'), hisb⟩
  · rintro ⟨hr, ha⟩ rest pc
    obtain ⟨m, hm, hreg, haddr, hbytes⟩ := hdecode rest pc
    refine ⟨m, hm, hreg.trans (r.low3_or_eq_iff.mpr hr), (hfound m).mpr ⟨a, haddr, ha⟩, hbytes, ?_⟩
    intro b regs hb
    rw [haddr] at hb
    cases hb
    exact ha.linear regs

theorem roundTrips_iff_of_base (a : X86Address) (form : DispForm) (rm : PhysReg)
    (disp : BitVec 32) {front : List Byte} (tail : List Byte) (hop : ∀ rm, op ≠ .reg rm)
    (hemit : op.emit r = front ++ form.emit disp)
    (hfront : front = emitModrm form.mode r rm :: tail)
    (hbase : ∀ rest pc, decodeBase (front ++ (form.emit disp ++ rest))
      { rex := emitRex w r op.rexIndex op.rexBase } pc form.mode rm.low3
      (rm.low3 ||| X86Prefix.rexB { rex := emitRex w r op.rexIndex op.rexBase }) =
        .ok (a, front.length)) :
    RoundTrips w r op ↔ r.encoding.toNat < 16 ∧ op.IsAddress (form.apply disp a) := by
  refine roundTrips_iff_of_memory hop fun rest pc => ?_
  have hdecode := decodeModrm_of_base tail rest hfront (hbase rest pc)
  rw [← List.append_assoc, ← hemit] at hdecode
  refine ⟨_, hdecode, ?_, rfl, ?_⟩
  · exact congrArg (r.low3 ||| ·) (rex_emitRex w r op.rexIndex op.rexBase).1
  · rw [hemit, List.length_append]

variable {base : PhysReg} {disp : BitVec 32} {size : DispSize}

/-- A displacement is left out only if it is zero and the base can do without one. -/
theorem choose_eq_none (h : DispForm.choose base disp size = .none) :
    disp = 0 ∧ base ≠ .rbp ∧ base ≠ .r13 := by
  cases size with
  | auto =>
    unfold DispForm.choose at h
    split_ifs at h with hzero
    exact hzero
  | disp8 => cases h
  | disp32 => cases h

theorem choose_eq_byte (hrep : Representable disp size)
    (h : DispForm.choose base disp size = .byte) : -128 ≤ disp.toInt ∧ disp.toInt ≤ 127 := by
  cases size with
  | auto =>
    unfold DispForm.choose at h
    split_ifs at h with _ hbyte
    exact hbyte
  | disp8 => exact hrep
  | disp32 => cases h

theorem AddressIs.apply {b i : Option Byte} {scale : Byte} (h : AddressIs a b i scale 0)
    (hrep : Representable disp size) :
    AddressIs ((DispForm.choose base disp size).apply disp a) b i scale (disp.signExtend 64) := by
  cases hform : DispForm.choose base disp size with
  | none =>
    obtain ⟨rfl, -⟩ := choose_eq_none hform
    exact { h with disp := h.disp.trans (by decide) }
  | byte =>
    exact { h with disp := signExtend_low_byte (choose_eq_byte hrep hform) }
  | word => exact { h with disp := rfl }

/-- A base with low bits 101 has a displacement. -/
theorem low3_of_choose (hbase : base.isGpr = true) :
    ¬(base.low3 = 5 ∧ (DispForm.choose base disp size).mode = 0) := by
  rintro ⟨hlow, hmode⟩
  have hnone : DispForm.choose base disp size = .none := by
    cases hform : DispForm.choose base disp size with
    | none => rfl
    | byte =>
      rw [hform] at hmode
      cases hmode
    | word =>
      rw [hform] at hmode
      cases hmode
  obtain ⟨-, hrbp, hr13⟩ := choose_eq_none hnone
  rcases (PhysReg.low3_eq_five_iff hbase).mp hlow with h | h
  · exact hrbp h
  · exact hr13 h

theorem mem_roundTrips_iff (hbase : base.isGpr = true) (hrep : Representable disp size) :
    RoundTrips w r (.mem base disp size) ↔ r.encoding.toNat < 16 := by
  obtain ⟨-, hX, hB⟩ := rex_emitRex w r none base
  have hlow := PhysReg.low3_or_of_isGpr hbase
  have hnot : ¬(base.low3 = 5 ∧ (DispForm.choose base disp size).mode = 0) := low3_of_choose hbase
  by_cases hsib : base = .rsp ∨ base = .r12
  · -- the SIB byte names RSP as the index, which stands for none
    have hiff := roundTrips_iff_of_base (w := w) (r := r)
      { X86Prefix.indexed { rex := emitRex w r none base } 1 4 with base := some base.encoding }
      (DispForm.choose base disp size) .rsp disp [emitSib 1 .rsp base]
      (fun rm => (nofun : Operand.mem base disp size ≠ .reg rm))
      (by rw [Operand.emit, emitModrmMemDisp, if_pos hsib]) rfl fun rest pc => by
        have hdecode := decodeSib_base (by decide : (scaleBits 1).toNat < 4) .rsp base
          (emitModrm (DispForm.choose base disp size).mode r .rsp)
          ((DispForm.choose base disp size).emit disp ++ rest) (emitRex w r none base) pc hnot
        rw [hX, hB, hlow] at hdecode
        unfold decodeBase
        rw [if_pos (by decide)]
        exact hdecode
    rw [hiff, and_iff_left]
    exact AddressIs.apply ⟨rfl, rfl, rfl, rfl, rfl, rfl, rfl⟩ hrep
  · have hfull : (base.low3 ||| X86Prefix.rexB { rex := emitRex w r none base } ||| 0) =
        base.encoding := by
      rw [hB, hlow]
      exact BitVec.or_zero
    have hfour : base.low3 ≠ 4 := fun h => hsib ((PhysReg.low3_eq_four_iff hbase).mp h)
    have hiff := roundTrips_iff_of_base (w := w) (r := r)
      { X86Prefix.emptyAddress { rex := emitRex w r none base } with base := some base.encoding }
      (DispForm.choose base disp size) base disp []
      (fun rm => (nofun : Operand.mem base disp size ≠ .reg rm))
      (by rw [Operand.emit, emitModrmMemDisp, if_neg hsib]) rfl fun rest pc => by
        unfold decodeBase
        rw [if_neg hfour, if_neg hnot]
        exact congrArg (fun b : Byte => Except.ok
          ({ X86Prefix.emptyAddress { rex := emitRex w r none base } with base := some b }, 1)) hfull
    rw [hiff, and_iff_left]
    exact AddressIs.apply ⟨rfl, rfl, rfl, rfl, rfl, rfl, rfl⟩ hrep

variable {index : PhysReg} {scale : Byte} (hindex : index.isGpr = true) (hrsp : index ≠ .rsp)
  (hscale : scale = 1 ∨ scale = 2 ∨ scale = 4 ∨ scale = 8)

include hindex hrsp hscale

theorem sib_roundTrips_iff (hbase : base.isGpr = true) (hrep : Representable disp size) :
    RoundTrips w r (.sib (some base) index scale disp size) ↔ r.encoding.toNat < 16 := by
  obtain ⟨-, hX, hB⟩ := rex_emitRex w r (some index) base
  obtain ⟨hbits, hshift⟩ := scaleBits_of_mem hscale
  have hnot : ¬(base.low3 = 5 ∧ (DispForm.choose base disp size).mode = 0) := low3_of_choose hbase
  have hiff := roundTrips_iff_of_base (w := w) (r := r)
    { X86Prefix.indexed { rex := emitRex w r (some index) base } scale index.encoding with
      base := some base.encoding }
    (DispForm.choose base disp size) .rsp disp [emitSib scale index base]
    (fun rm => (nofun : Operand.sib (some base) index scale disp size ≠ .reg rm)) rfl rfl
    fun rest pc => by
      have hdecode := decodeSib_base hbits index base
        (emitModrm (DispForm.choose base disp size).mode r .rsp)
        ((DispForm.choose base disp size).emit disp ++ rest) (emitRex w r (some index) base) pc hnot
      rw [hX, hB, PhysReg.low3_or_of_isGpr hbase, hshift] at hdecode
      have hlow : (index.low3 ||| if (some index).any PhysReg.isExtended then 8 else 0) =
          index.encoding := PhysReg.low3_or_of_isGpr hindex
      rw [hlow] at hdecode
      unfold decodeBase
      rw [if_pos (by decide)]
      exact hdecode
  rw [hiff, and_iff_left]
  refine AddressIs.apply ⟨rfl, ?_, rfl, rfl, rfl, rfl, rfl⟩ hrep
  exact if_pos (PhysReg.encoding_ne_four hindex hrsp)

theorem index_roundTrips_iff :
    RoundTrips w r (.sib none index scale disp size) ↔ r.encoding.toNat < 16 := by
  have hX := (rex_emitRex w r (some index) .rbp).2.1
  obtain ⟨hbits, hshift⟩ := scaleBits_of_mem hscale
  have hiff := roundTrips_iff_of_base (w := w) (r := r)
    { X86Prefix.indexed { rex := emitRex w r (some index) .rbp } scale index.encoding with
      disp := disp.signExtend 64, dispSize := .disp32 }
    .none .rsp 0 (emitSib scale index .rbp :: leBytes32 disp)
    (fun rm => (nofun : Operand.sib none index scale disp size ≠ .reg rm)) rfl rfl
    fun rest pc => by
      have hdecode := decodeSib_disp hbits index .rbp (emitModrm 0 r .rsp) rest
        (emitRex w r (some index) .rbp) pc (by decide) disp
      have hlow : (index.low3 ||| if (some index).any PhysReg.isExtended then 8 else 0) =
          index.encoding := PhysReg.low3_or_of_isGpr hindex
      rw [hX, hlow, hshift] at hdecode
      unfold decodeBase
      rw [if_pos (by decide)]
      exact hdecode
  rw [hiff, and_iff_left]
  refine ⟨rfl, ?_, rfl, rfl, rfl, rfl, rfl⟩
  exact if_pos (PhysReg.encoding_ne_four hindex hrsp)

omit hindex hrsp hscale

theorem abs_roundTrips_iff {addr : Word} :
    RoundTrips w r (.abs addr) ↔
      r.encoding.toNat < 16 ∧ (addr.setWidth 32).signExtend 64 = addr := by
  have hX := (rex_emitRex w r none .rax).2.1
  have hiff := roundTrips_iff_of_base (w := w) (r := r)
    { X86Prefix.indexed { rex := emitRex w r none .rax } 1 4 with
      disp := (addr.setWidth 32).signExtend 64, dispSize := .disp32 }
    .none .rsp 0 (0x25 :: leBytes32 (addr.setWidth 32))
    (fun rm => (nofun : Operand.abs addr ≠ .reg rm)) rfl rfl
    fun rest pc => by
      have hdecode := decodeSib_disp (by decide : (scaleBits 1).toNat < 4) .rsp .rbp
        (emitModrm 0 r .rsp) rest (emitRex w r none .rax) pc (by decide) (addr.setWidth 32)
      rw [hX] at hdecode
      unfold decodeBase
      rw [if_pos (by decide)]
      exact hdecode
  rw [hiff]
  refine and_congr_right fun _ => ⟨fun h => h.disp, fun h => ?_⟩
  exact ⟨rfl, rfl, rfl, h, rfl, rfl, rfl⟩

theorem reg_roundTrips_iff {rm : PhysReg} :
    RoundTrips w r (.reg rm) ↔ r.encoding.toNat < 16 ∧ rm.encoding.toNat < 16 := by
  obtain ⟨hR, -, hB⟩ := rex_emitRex w r none rm
  obtain ⟨hmod, hreg, hrm⟩ := emitModrm_fields (by decide : (3 : Byte).toNat < 4) r rm
  have hdecode : ∀ rest pc, decodeModrm (emitModrmRr r rm ++ rest)
      { rex := emitRex w r none rm } pc =
        .ok { byte := emitModrm 3 r rm, modBits := 3,
              reg := r.low3 ||| if r.isExtended then 8 else 0,
              rm := rm.low3 ||| if rm.isExtended then 8 else 0,
              isMemory := false, addr := none, bytesConsumed := 1 } := by
    intro rest pc
    rw [← hB, ← hR]
    unfold decodeModrm
    dsimp only [emitModrmRr, List.cons_append]
    rw [hmod, hreg, hrm, if_pos rfl]
  constructor
  · intro h
    obtain ⟨m, hm, hr, ⟨-, -, hop⟩, -⟩ := h [] 0
    cases (hdecode [] 0).symm.trans hm
    exact ⟨r.low3_or_eq_iff.mp hr, rm.low3_or_eq_iff.mp hop⟩
  · rintro ⟨hr, hop⟩ rest pc
    refine ⟨_, hdecode rest pc, r.low3_or_eq_iff.mpr hr, ⟨rfl, rfl, rm.low3_or_eq_iff.mpr hop⟩,
      rfl, ?_⟩
    intro a regs ha
    cases ha

end RoundTrips

/-- What is encoded in too few bits for some values: a register number in four bits, an absolute
address in 32. -/
def Operand.Fits : Operand → Prop
  | .reg rm => rm.encoding.toNat < 16
  | .abs addr => (addr.setWidth 32).signExtend 64 = addr
  | _ => True

theorem operand_roundTrips_iff (w : Bool) (r : PhysReg) (op : Operand) (h : op.Admissible) :
    RoundTrips w r op ↔ r.encoding.toNat < 16 ∧ op.Fits := by
  cases op with
  | reg rm => exact reg_roundTrips_iff
  | mem base disp size =>
    rw [mem_roundTrips_iff h.1 h.2]
    exact (and_iff_left trivial).symm
  | sib base index scale disp size =>
    obtain ⟨hbase, hindex, hrsp, hscale⟩ := h
    refine Iff.trans ?_ (and_iff_left trivial).symm
    cases base with
    | none => exact index_roundTrips_iff hindex hrsp hscale
    | some b =>
      obtain ⟨hgpr, hrep⟩ := hbase b rfl
      exact sib_roundTrips_iff hindex hrsp hscale hgpr hrep
  | abs addr => exact abs_roundTrips_iff

/-- A base and an index that both need a REX bit, and the base a displacement. -/
theorem operand_roundTrips_iff_r13 :
    (Operand.sib (some .r13) .r12 8 0 .auto).Admissible ∧
      (RoundTrips true .rdi (.sib (some .r13) .r12 8 0 .auto) ↔
        PhysReg.rdi.encoding.toNat < 16 ∧ (Operand.sib (some .r13) .r12 8 0 .auto).Fits) := by
  have hadmissible : (Operand.sib (some .r13) .r12 8 0 .auto).Admissible := by
    refine ⟨?_, rfl, by decide, .inr (.inr (.inr rfl))⟩
    rintro b ⟨rfl⟩
    exact ⟨rfl, trivial⟩
  exact ⟨hadmissible, operand_roundTrips_iff true .rdi _ hadmissible⟩

/-- The operand of `mov al, [0x1122334455667788]` is encoded as 0x55667788. -/
theorem abs_not_roundTrips : ¬RoundTrips false .rax (.abs 0x1122334455667788) := by
  intro h
  obtain ⟨m, hm, -, ⟨a, ha, haddr⟩, -⟩ := h [] 0
  have hdecoded : (decodeModrm (Operand.emit .rax (.abs 0x1122334455667788) ++ [])
      { rex := emitRex false .rax none .rax } 0).toOption.bind (fun m => m.addr.map (·.disp)) =
        some 0x55667788 := by
    decide
  rw [show decodeModrm (Operand.emit .rax (.abs 0x1122334455667788) ++ [])
    { rex := emitRex false .rax none .rax } 0 = .ok m from hm] at hdecoded
  have hdisp : m.addr.map (·.disp) = some 0x55667788 := hdecoded
  rw [ha, Option.map_some, haddr.disp] at hdisp
  exact absurd (Option.some.inj hdisp) (by decide)

end Rax.Smir.Lower

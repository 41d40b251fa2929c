import Rax.Smir.Interpret.Operand

/-!
# Integer arithmetic and logic

Effects of the operations of `interpret/ops/arithmetic.rs` and `interpret/ops/logic.rs` on
operand values that have been read.
-/

namespace Rax.Smir

/-- A single result written with x86 sub-register merging. -/
def RegWrite.toGpr (dst : VReg) (width : OpWidth) (value : Word) : RegWrite :=
  ⟨dst, .gpr width, value⟩

/-- `#DE` and the other undefined-operation exits carry the operation's guest address. -/
def Effect.trap (guestPc : Word) : Effect := { exit := some (.undefined guestPc 0) }

namespace Interpret

/-- Sum or difference of two operands, before it is cut to the width. -/
def arithResult (kind : ArithKind) (a b cf : Word) : Word :=
  match kind with
  | .add => a + b
  | .sub => a - b
  | .adc => a + b + cf
  | .sbb => a - b - cf

/-- `Add`, `Sub`, `Adc` and `Sbb`. -/
def arith (kind : ArithKind) (dst : VReg) (a b : Word) (carry : Bool) (width : OpWidth)
    (flags : FlagUpdate) : Effect :=
  let cf : Word := if carry then 1 else 0
  let result := arithResult kind a b cf &&& width.mask
  let lazy : LazyFlags :=
    match kind with
    | .add => .add a b result width
    | .sub => .sub a b result width
    | .adc => .adc a b cf result width
    | .sbb => .sbb a b cf result width
  { writes := [.toGpr dst width result], flags := .onUpdate flags (.setLazy lazy) }

def neg (dst : VReg) (a : Word) (width : OpWidth) (flags : FlagUpdate) : Effect :=
  let result := (0 - a) &&& width.mask
  { writes := [.toGpr dst width result]
    flags := .onUpdate flags (.setLazy { op := .neg, result, left := a, width }) }

/-- `Inc` and `Dec`. -/
def incDec (kind : IncDecKind) (dst : VReg) (a : Word) (width : OpWidth)
    (flags : FlagUpdate) : Effect :=
  match kind with
  | .inc =>
    let result := (a + 1) &&& width.mask
    { writes := [⟨dst, .part width, result⟩]
      flags := .onUpdate flags (.setLazy (.inc a result width)) }
  | .dec =>
    let result := (a - 1) &&& width.mask
    { writes := [⟨dst, .part width, result⟩]
      flags := .onUpdate flags (.setLazy (.dec a result width)) }

def cmp (a b : Word) (width : OpWidth) : Effect :=
  { flags := .setLazy (.sub a b ((a - b) &&& width.mask) width) }

/-- Low and high half of a product at a width. There is no high half at 128 bits. -/
def productHalves (signed : Bool) (width : OpWidth) (a b : Word) : Word × Word :=
  match width with
  | .w128 => (a * b, 0)
  | _ =>
    let product : BitVec 128 :=
      if signed then sext128 (a.setWidth 128) width.bits * sext128 (b.setWidth 128) width.bits
      else a.setWidth 128 * b.setWidth 128
    (product.setWidth 64 &&& width.mask, (product >>> width.bits).setWidth 64 &&& width.mask)

/-- `MulU` and `MulS`. The 8-bit forms write the whole 16-bit product to the low
destination and do not touch the high one. -/
def mul (signed : Bool) (dstLo : VReg) (dstHi : Option VReg) (src1 src2 : Word)
    (width : OpWidth) (flags : FlagUpdate) : Effect :=
  let a := if signed then signExtend src1 width else src1 &&& width.mask
  let b := if signed then signExtend src2 width else src2 &&& width.mask
  let lo := (productHalves signed width a b).1
  let hi := (productHalves signed width a b).2
  let writes : List RegWrite :=
    if width = .w8 then [.toGpr dstLo .w16 (lo ||| (hi <<< 8))]
    else .toGpr dstLo width lo :: dstHi.toList.map (RegWrite.toGpr · width hi)
  let op : LazyFlagOp := if signed then .imul else .mul
  { writes
    flags := .withUpdate { op, result := lo, left := a, right := b, width, high := hi } flags }

/-- `MulAdd` and `MulSub`. -/
def mulAcc (sub : Bool) (dst : VReg) (acc src1 src2 : Word) (width : OpWidth) : Effect :=
  let a := src1 &&& width.mask
  let b := src2 &&& width.mask
  let c := acc &&& width.mask
  let result := (if sub then c - a * b else c + a * b) &&& width.mask
  { writes := [.toGpr dst width result] }

/-- The double-width value `hi:lo`. The shift count wraps at 128 bits. -/
def joinHalves (hi lo : Word) (width : OpWidth) : BitVec 128 :=
  ((hi &&& width.mask).setWidth 128 <<< (width.bits % 128)) |||
    (lo &&& width.mask).setWidth 128

/-- The dividend of an unsigned division: `AX` for 8-bit forms and `RDX:src1` otherwise in an
x86 context, `src1` in any other. -/
def dividendU (x86 : Bool) (width : OpWidth) (src1 rax rdx : Word) : BitVec 128 :=
  if !x86 then (src1 &&& width.mask).setWidth 128
  else if width = .w8 then (rax &&& 0xFFFF).setWidth 128
  else joinHalves rdx src1 width

def dividendS (x86 : Bool) (width : OpWidth) (src1 rax rdx : Word) : BitVec 128 :=
  if !x86 then (signExtend src1 width).signExtend 128
  else if width = .w8 then (rax.setWidth 16).signExtend 128
  else sext128 (joinHalves rdx src1 width) (width.bits * 2)

/-- Quotient and remainder, or nothing on division by zero and on quotient overflow. Only
x86 divisions overflow when signed. -/
def quotRem (signed x86 : Bool) (width : OpWidth) (src1 src2 rax rdx : Word) :
    Option (Word × Word) :=
  if signed then
    let b : BitVec 128 := (signExtend src2 width).signExtend 128
    let a := dividendS x86 width src1 rax rdx
    let q := a.sdiv b
    let r := a.srem b
    let limit : Int := 2 ^ (width.bits - 1)
    if b = 0 then none
    else if x86 && (decide (q.toInt < -limit) || decide (limit - 1 < q.toInt)) then none
    else some (q.setWidth 64 &&& width.mask, r.setWidth 64 &&& width.mask)
  else
    let b : BitVec 128 := (src2 &&& width.mask).setWidth 128
    let a := dividendU x86 width src1 rax rdx
    if b = 0 then none
    else if (width.mask.setWidth 128).ult (a / b) then none
    else some ((a / b).setWidth 64, (a % b).setWidth 64)

/-- `DivU` and `DivS`. The 8-bit x86 forms write `AX`, whatever their destinations. -/
def div (signed x86 : Bool) (quot : VReg) (rem : Option VReg) (src1 src2 rax rdx : Word)
    (width : OpWidth) (guestPc : Word) : Effect :=
  match quotRem signed x86 width src1 src2 rax rdx with
  | none => .trap guestPc
  | some (q, r) =>
    if x86 && width = .w8 then
      { writes := [.toGpr .rax .w16 (((r &&& 0xFF) <<< 8) ||| (q &&& 0xFF))] }
    else
      { writes := .toGpr quot width q :: rem.toList.map (RegWrite.toGpr · width r) }

/-- Division reads `RAX` in its 8-bit form and `RDX` in the others. -/
theorem div_congr (signed x86 : Bool) (quot : VReg) (rem : Option VReg) (src1 src2 : Word)
    {rax rdx rax' rdx' : Word} (width : OpWidth) (guestPc : Word)
    (h : if width = .w8 then rax = rax' else rdx = rdx') :
    div signed x86 quot rem src1 src2 rax rdx width guestPc =
      div signed x86 quot rem src1 src2 rax' rdx' width guestPc := by
  have hq : quotRem signed x86 width src1 src2 rax rdx =
      quotRem signed x86 width src1 src2 rax' rdx' := by
    by_cases hw : width = .w8
    · rw [if_pos hw] at h
      rw [quotRem, quotRem]
      simp [dividendS, dividendU, hw, h]
    · rw [if_neg hw] at h
      rw [quotRem, quotRem]
      simp [dividendS, dividendU, hw, h]
  rw [div, div, hq]

/-- Bitwise combination of two operands, before it is cut to the width. -/
def logicResult (kind : LogicKind) (a b : Word) : Word :=
  match kind with
  | .and => a &&& b
  | .or => a ||| b
  | .xor => a ^^^ b
  | .andNot => a &&& ~~~b

/-- `And`, `Or`, `Xor` and `AndNot`. -/
def logic (kind : LogicKind) (dst : VReg) (a b : Word) (width : OpWidth)
    (flags : FlagUpdate) : Effect :=
  let result := logicResult kind a b &&& width.mask
  let lazy : LazyFlags :=
    match kind, flags with
    | .andNot, .specific _ => .andn result width
    | _, _ => .logic result width
  { writes := [.toGpr dst width result], flags := .withUpdate lazy flags }

def not (dst : VReg) (a : Word) (width : OpWidth) : Effect :=
  { writes := [.toGpr dst width (~~~a &&& width.mask)] }

def test (a b : Word) (width : OpWidth) : Effect :=
  { flags := .setLazy (.logic ((a &&& b) &&& width.mask) width) }

/-- The part of a register an exchange operand denotes. -/
def readGprOperand (o : X86GprOperand) (width : OpWidth) (value : Word) : Word :=
  if o.highByte then (value >>> 8) &&& 0xFF else value &&& width.mask

def writeGprOperand (o : X86GprOperand) (width : OpWidth) (value : Word) : RegWrite :=
  ⟨o.vreg, if o.highByte then .highByte else .part width, value⟩

def x86Xadd (dst src : X86GprOperand) (dstValue srcValue : Word) (width : OpWidth)
    (flags : FlagUpdate) : Effect :=
  let oldDst := readGprOperand dst width dstValue
  let oldSrc := readGprOperand src width srcValue
  let sum := (oldDst + oldSrc) &&& width.mask
  { writes := [writeGprOperand src width oldDst, writeGprOperand dst width sum]
    flags := .onUpdate flags (.setLazy (.add oldDst oldSrc sum width)) }

def x86Cmpxchg (dst src : X86GprOperand) (dstValue srcValue rax : Word) (width : OpWidth)
    (flags : FlagUpdate) : Effect :=
  let accumulator : X86GprOperand := { reg := .rax }
  let oldAccumulator := readGprOperand accumulator width rax
  let oldDst := readGprOperand dst width dstValue
  let oldSrc := readGprOperand src width srcValue
  let difference := (oldAccumulator - oldDst) &&& width.mask
  { writes :=
      if oldAccumulator = oldDst then [writeGprOperand dst width oldSrc]
      else [writeGprOperand accumulator width oldDst]
    flags := .onUpdate flags (.setLazy (.sub oldAccumulator oldDst difference width)) }

end Interpret

end Rax.Smir

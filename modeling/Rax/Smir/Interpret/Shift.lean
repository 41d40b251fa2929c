import Rax.Smir.Interpret.Arithmetic

/-!
# Shifts and rotates

Effects of the operations of `interpret/ops/shift.rs`, with `x86_rcl` and `x86_rcr` of
`interpret/x86_ops.rs` and `shift_c` and `add_with_carry` of `isa/arm/aarch32/cpu.rs`.
-/

namespace Rax.Smir

/-- `scalar_shift_count_mask`: five bits for x86 code below 64 bits, six bits otherwise. -/
def scalarShiftCountMask (sourceArch : SourceArch) (width : OpWidth) : Word :=
  if sourceArch = .x86_64 ∧ width ≠ .w64 then 0x1F else 0x3F

/-- The count mask of double shifts and rotates. -/
def rotateCountMask (width : OpWidth) : Word := if width.bits = 64 then 0x3F else 0x1F

namespace Interpret

/-- Result of `Shl`, `Shr` or `Sar` by a masked count. -/
def shiftResult (kind : ShiftKind) (width : OpWidth) (val : Word) (amt : Nat) : Word :=
  match kind with
  | .shl => if width.bits ≤ amt then 0 else (val <<< amt) &&& width.mask
  | .shr => if width.bits ≤ amt then 0 else (val >>> amt) &&& width.mask
  | .sar =>
    if width.bits ≤ amt then (if val.msb then width.mask else 0)
    else val.sshiftRight amt &&& width.mask

/-- `Shl`, `Shr` and `Sar`. A masked count of zero leaves the flags alone. -/
def shift (kind : ShiftKind) (sourceArch : SourceArch) (dst : VReg) (src amount : Word)
    (width : OpWidth) (flags : FlagUpdate) : Effect :=
  let val : Word :=
    match kind with
    | .shl | .shr => src &&& width.mask
    | .sar => signExtend (src &&& width.mask) width
  let op : LazyFlagOp :=
    match kind with
    | .shl => .shl
    | .shr => .shr
    | .sar => .sar
  let amt := amount &&& scalarShiftCountMask sourceArch width
  let result := shiftResult kind width val amt.toNat
  { writes := [.toGpr dst width result]
    flags :=
      if amt = 0 then .keep
      else .withUpdate { op, result, left := val, right := amt, width } flags }

/-- `Shld`, `Shrd` and `X86NddDoubleShift`. A count of zero and a masked count above the
width leave the base and the flags as they are. -/
def doubleShift (left : Bool) (dst : VReg) (base fill amount : Word) (width : OpWidth)
    (flags : FlagUpdate) : Effect :=
  let base := base &&& width.mask
  let fill := fill &&& width.mask
  let amt := amount &&& rotateCountMask width
  let n := amt.toNat
  if n ≠ 0 ∧ n ≤ width.bits then
    let result :=
      (if left then (base <<< n) ||| Word.shr fill (width.bits - n)
      else (base >>> n) ||| Word.shl fill (width.bits - n)) &&& width.mask
    let op : LazyFlagOp := if left then .shld else .shrd
    { writes := [.toGpr dst width result]
      flags := .onUpdate flags (.setLazy { op, result, left := base, right := amt, width }) }
  else { writes := [.toGpr dst width base] }

/-- `Rol` and `Ror`. Carry and overflow change when the masked count is not zero, even if
the rotation amount is. -/
def rotate (kind : RotateKind) (dst : VReg) (src amount : Word) (width : OpWidth)
    (flags : FlagUpdate) : Effect :=
  let val := src &&& width.mask
  let masked := amount &&& rotateCountMask width
  let amt := masked.toNat % width.bits
  let result : Word :=
    if amt = 0 then val
    else
      match kind with
      | .rol => (val <<< amt ||| Word.shr val (width.bits - amt)) &&& width.mask
      | .ror => (val >>> amt ||| Word.shl val (width.bits - amt)) &&& width.mask
  let op : LazyFlagOp :=
    match kind with
    | .rol => .rotate
    | .ror => .ror
  { writes := [.toGpr dst width result]
    flags :=
      if masked = 0 then .keep
      else .onUpdate flags
        (.settleLazy { op, result, left := val, right := masked, width }) }

/-- One step of a rotate through carry. -/
def rotateCarryStep (kind : RotateCarryKind) (width : OpWidth) : Word × Bool → Word × Bool
  | (result, carry) =>
    let c : Word := if carry then 1 else 0
    match kind with
    | .rcl => (((result <<< 1) ||| c) &&& width.mask, (Word.shr result (width.bits - 1)).bit 0)
    | .rcr => ((result >>> 1) ||| Word.shl c (width.bits - 1), result.bit 0)

/-- `x86_rcl` and `x86_rcr`: result, carry out and effective count. -/
def x86RotateCarry (kind : RotateCarryKind) (val count : Word) (carryIn : Bool)
    (width : OpWidth) : Word × Bool × Nat :=
  let effective := (count &&& rotateCountMask width).toNat % (width.bits + 1)
  let out := Nat.iterate (rotateCarryStep kind width) effective (val &&& width.mask, carryIn)
  (out.1 &&& width.mask, out.2, effective)

/-- `Rcl` and `Rcr`. The pending record is settled whatever the request. -/
def rotateCarry (kind : RotateCarryKind) (dst : VReg) (src count : Word) (carryIn : Bool)
    (width : OpWidth) (flags : FlagUpdate) : Effect :=
  let val := src &&& width.mask
  let out := x86RotateCarry kind val count carryIn width
  let op : LazyFlagOp :=
    match kind with
    | .rcl => .rcl
    | .rcr => .rcr
  { writes := [.toGpr dst width out.1]
    flags :=
      if out.2.2 ≠ 0 ∧ flags.updatesAny then
        .settleLazy
          { op, result := out.1, left := val, right := count &&& rotateCountMask width, width
            high := if out.2.1 then 1 else 0 }
      else .settle }

/-- `shift_c`: an AArch32 shift with carry out. -/
def shiftC (value : BitVec 32) (shift : ShiftOp) (amount : Nat) (carryIn : Bool) :
    BitVec 32 × Bool :=
  if amount = 0 then (value, carryIn)
  else
    match shift with
    | .lsl =>
      if 32 ≤ amount then (0, amount == 32 && value.getLsbD 0)
      else (value <<< amount, value.getLsbD (32 - amount))
    | .lsr =>
      if 32 ≤ amount then (0, amount == 32 && value.msb)
      else (value >>> amount, value.getLsbD (amount - 1))
    | .asr =>
      if 32 ≤ amount then (if value.msb then 0xFFFFFFFF else 0, value.msb)
      else (value.sshiftRight amount, value.getLsbD (amount - 1))
    | .ror =>
      let result := value.rotateRight (amount % 32)
      (result, result.msb)
    | .rrx => ((value >>> 1) ||| (if carryIn then 1 <<< 31 else 0), value.getLsbD 0)

/-- `add_with_carry`: sum, carry out and signed overflow. -/
def addWithCarry (x y : BitVec 32) (carryIn : Bool) : BitVec 32 × Bool × Bool :=
  let c := if carryIn then 1 else 0
  let unsigned : Nat := x.toNat + y.toNat + c
  let signed : Int := x.toInt + y.toInt + c
  let result := BitVec.ofNat 32 unsigned
  (result, result.toNat != unsigned, result.toInt != signed)

/-- `ArmRegShift`. The pending record is settled whatever the request. -/
def armRegShift (dst : VReg) (src amount : Word) (shift : ShiftOp) (carryIn : Bool)
    (flags : FlagUpdate) : Effect :=
  let out := shiftC (src.setWidth 32) shift (amount &&& 0xFF).toNat carryIn
  let value (f : Flag) : Option Bool :=
    match f with
    | .sf => some out.1.msb
    | .zf => some (out.1 == 0)
    | .cf => some out.2
    | _ => none
  { writes := [.toGpr dst .w32 (out.1.setWidth 64)]
    flags := .assign (fun f => if f ∈ flags.asSet then value f else none) none none }

/-- The value of an AArch32 data-processing operation and, for the arithmetic ones, its carry
and overflow. -/
def armDpResult (kind : ArmDpRegShiftKind) (lhs shifted : BitVec 32) (carryIn : Bool) :
    BitVec 32 × Option (Bool × Bool) :=
  let arithmetic (out : BitVec 32 × Bool × Bool) := (out.1, some out.2)
  match kind with
  | .and | .tst => (lhs &&& shifted, none)
  | .eor | .teq => (lhs ^^^ shifted, none)
  | .orr => (lhs ||| shifted, none)
  | .mov => (shifted, none)
  | .bic => (lhs &&& ~~~shifted, none)
  | .mvn => (~~~shifted, none)
  | .sub | .cmp => arithmetic (addWithCarry lhs (~~~shifted) true)
  | .rsb => arithmetic (addWithCarry shifted (~~~lhs) true)
  | .add | .cmn => arithmetic (addWithCarry lhs shifted false)
  | .adc => arithmetic (addWithCarry lhs shifted carryIn)
  | .sbc => arithmetic (addWithCarry lhs (~~~shifted) carryIn)
  | .rsc => arithmetic (addWithCarry shifted (~~~lhs) carryIn)

/-- `ArmDpRegShift`. -/
def armDpRegShift (kind : ArmDpRegShiftKind) (dst : Option VReg) (rn rm rs : Word)
    (shift : ShiftOp) (carryIn : Bool) (flags : FlagUpdate) : Effect :=
  let shifted := shiftC (rm.setWidth 32) shift (rs &&& 0xFF).toNat carryIn
  let out := armDpResult kind (rn.setWidth 32) shifted.1 carryIn
  let value (f : Flag) : Option Bool :=
    match f with
    | .sf => some out.1.msb
    | .zf => some (out.1 == 0)
    | .cf => some ((out.2.map Prod.fst).getD shifted.2)
    | .of => out.2.map Prod.snd
    | _ => none
  { writes := dst.toList.map (RegWrite.toGpr · .w32 (out.1.setWidth 64))
    flags := .assign (fun f => if f ∈ flags.asSet then value f else none) none none }

/-- Signed count of a bidirectional shift: the low seven bits, sign-extended. -/
def bidirCount (amount : Word) : Int := (amount.setWidth 7).toInt

/-- `BidirShift`: arithmetic left, arithmetic right, logical left, logical right; a negative
count reverses the direction. -/
def bidirShift (dst : VReg) (src amount : Word) (kind : Nat) (width : OpWidth) : Effect :=
  let raw := (src &&& width.mask).setWidth 128
  let s := sext128 raw width.bits
  let count := bidirCount amount
  let n := count.natAbs
  let result : BitVec 128 :=
    match kind with
    | 0 => if count < 0 then s.sshiftRight n else s <<< n
    | 1 => if count < 0 then s <<< n else s.sshiftRight n
    | 2 => if count < 0 then raw >>> n else raw <<< n
    | _ => if count < 0 then raw <<< n else raw >>> n
  { writes := [.toGpr dst width (result.setWidth 64 &&& width.mask)] }

/-- Sticky saturation: set bit 0 of the Hexagon user status register. -/
def stickyOverflow (overflow : Bool) : List RegWrite :=
  if overflow then [⟨.usr, .setBit0, 0⟩] else []

/-- `SatN`. -/
def satN (dst : VReg) (src : Word) (satBits : Nat) (signed setOvf : Bool) (width : OpWidth) :
    Effect :=
  let val : Word := (sext128 (src.setWidth 128) width.bits).setWidth 64
  let half := Word.shl 1 (if satBits = 0 then 63 else satBits - 1)
  let lo : Word := if signed then 0 - half else 0
  let hi : Word := if signed then half - 1 else Word.shl 1 satBits - 1
  let clamped := if val.slt lo then lo else if hi.slt val then hi else val
  let overflow := val.slt lo || hi.slt val
  { writes :=
      stickyOverflow (overflow && setOvf) ++ [.toGpr dst width (clamped &&& width.mask)] }

/-- Carry-less product of two operands. -/
def clmul (a b : Word) (bits : Nat) : BitVec 128 :=
  (List.range bits).foldl
    (fun prod k => if (Word.shr b k).bit 0 then prod ^^^ (a.setWidth 128 <<< (k % 128)) else prod)
    0

/-- `ClMul`: one product split at the element boundary, or two interleaved 16-bit ones. -/
def clMul (dst : VReg) (dstHi : Option VReg) (a b oldLo oldHi : Word) (elemBits lanes : Nat)
    (acc : Bool) : Effect :=
  let elemMask : Word := if elemBits = 64 then 0xFFFFFFFFFFFFFFFF else Word.shl 1 elemBits - 1
  let resultMask : Word := if lanes = 1 then elemMask else 0xFFFFFFFF
  let halves : Word × Word :=
    if lanes = 1 then
      let p := clmul (a &&& elemMask) (b &&& elemMask) elemBits
      (p.setWidth 64 &&& elemMask, (p >>> (elemBits % 128)).setWidth 64 &&& elemMask)
    else
      let p0 : Word := (clmul (a &&& 0xffff) (b &&& 0xffff) elemBits).setWidth 64
      let p1 : Word :=
        (clmul ((a >>> 16) &&& 0xffff) ((b >>> 16) &&& 0xffff) elemBits).setWidth 64
      ((p0 &&& 0xffff) ||| ((p1 &&& 0xffff) <<< 16),
        ((p0 >>> 16) &&& 0xffff) ||| (((p1 >>> 16) &&& 0xffff) <<< 16))
  let lo := if acc then halves.1 ^^^ (oldLo &&& resultMask) else halves.1
  let hi := if acc then halves.2 ^^^ (oldHi &&& resultMask) else halves.2
  let width : OpWidth := if elemBits = 64 ∧ lanes = 1 then .w64 else .w32
  { writes := .toGpr dst width (lo &&& resultMask) ::
      dstHi.toList.map (RegWrite.toGpr · width (hi &&& resultMask)) }

/-- One bit of the reflected Castagnoli recurrence. -/
def crcBit (crc : BitVec 32) : BitVec 32 :=
  (crc >>> 1) ^^^ (if crc.getLsbD 0 then 0x82F63B78 else 0)

/-- The Castagnoli residue of the bytes of a value, byte 0 first. -/
def crc32c (crc : BitVec 32) (data : Word) (width : OpWidth) : BitVec 32 :=
  (List.range (width.bits / 8)).foldl
    (fun crc byte =>
      Nat.iterate crcBit 8 (crc ^^^ ((Word.shr data (byte * 8)) &&& 0xff).setWidth 32))
    crc

/-- `Crc32C`. -/
def crc32C (dst : VReg) (crc data : Word) (dataWidth : OpWidth) : Effect :=
  { writes := [.toGpr dst .w64 ((crc32c (crc.setWidth 32) data dataWidth).setWidth 64)] }

/-- `CmpyW128Sat`: one half of a complex product, saturated to 32 bits. -/
def cmpyW128Sat (dst : VReg) (rssLo rssHi rttLo rttHi : Word) (w0 w1 w2 w3 : Nat)
    (add rnd : Bool) : Effect :=
  let rss := rssLo.low32 ||| (rssHi.low32 <<< 32)
  let rtt := rttLo.low32 ||| (rttHi.low32 <<< 32)
  let word (src : Word) (n : Nat) : Int := ((Word.shr src (n * 32)).setWidth 32).toInt
  let term0 := word rss w0 * word rtt w1
  let term1 := word rss w2 * word rtt w3
  let acc := (if add then term0 + term1 else term0 - term1) + (if rnd then 0x40000000 else 0)
  let shifted : Int := acc / 2 ^ 31
  let lo : Int := -2 ^ 31
  let hi : Int := 2 ^ 31 - 1
  let clamped := if shifted < lo then lo else if hi < shifted then hi else shifted
  let overflow := decide (shifted < lo) || decide (hi < shifted)
  { writes := stickyOverflow overflow ++ [.toGpr dst .w32 (Word.low32 (.ofInt 64 clamped))] }

/-- `fSAT_ORIG_SHL`: saturate towards the sign of the original, and whether it saturated. -/
def satOrig (a : BitVec 64) (orig : BitVec 32) : BitVec 32 × Bool :=
  let low := a.toInt < -2 ^ 31
  let high := 2 ^ 31 - 1 < a.toInt
  let sat : BitVec 32 :=
    if low then 0x80000000 else if high then 0x7FFFFFFF else a.setWidth 32
  if (sat ^^^ orig).msb then (if orig.msb then 0x80000000 else 0x7FFFFFFF, true)
  else if 0 < orig.toInt ∧ a = 0 then (0x7FFFFFFF, true)
  else (sat, decide low || decide high)

/-- `SatOrigShl`. -/
def satOrigShl (dst : VReg) (src amount : Word) (right : Bool) (width : OpWidth) : Effect :=
  let value : BitVec 32 := src.setWidth 32
  let orig : Word := value.signExtend 64
  let count := bidirCount amount
  let n := count.natAbs
  let out : BitVec 32 × Bool :=
    if decide (count < 0) == right then
      satOrig (if count < 0 then (orig <<< (n - 1)) <<< 1 else orig <<< n) value
    else
      ((if count < 0 then (orig.sshiftRight (n - 1)).sshiftRight 1
        else orig.sshiftRight n).setWidth 32, false)
  { writes := stickyOverflow out.2 ++ [.toGpr dst width (out.1.setWidth 64 &&& width.mask)] }

/-- Only a rotate through the carry uses the carry for its result. -/
theorem shiftC_fst_carry {shift : ShiftOp} (h : shift ≠ .rrx) (value : BitVec 32) (amount : Nat)
    (c c' : Bool) : (shiftC value shift amount c).1 = (shiftC value shift amount c').1 := by
  cases shift <;> grind [shiftC]

theorem armRegShift_carry {shift : ShiftOp} {flags : FlagUpdate} (dst : VReg) (src amount : Word)
    (c c' : Bool) (h : shift = .rrx ∨ .cf ∈ flags.asSet → c = c') :
    armRegShift dst src amount shift c flags = armRegShift dst src amount shift c' flags := by
  by_cases hc : shift = .rrx ∨ .cf ∈ flags.asSet
  · rw [h hc]
  · have hres := shiftC_fst_carry (fun hr => hc (Or.inl hr)) (src.setWidth 32)
      (amount &&& 0xFF).toNat c c'
    have hcf : Flag.cf ∉ flags.asSet := fun hf => hc (Or.inr hf)
    simp only [armRegShift, hres, Effect.mk.injEq, FlagAct.assign.injEq, and_true, true_and]
    funext f
    by_cases hf : f ∈ flags.asSet
    · cases f <;> simp_all
    · simp [hf]

theorem armDpRegShift_carry {kind : ArmDpRegShiftKind} {shift : ShiftOp} {flags : FlagUpdate}
    (dst : Option VReg) (rn rm rs : Word) (c c' : Bool)
    (h : shift = .rrx ∨ kind.readsCarry ∨ kind.isLogical ∧ .cf ∈ flags.asSet → c = c') :
    armDpRegShift kind dst rn rm rs shift c flags =
      armDpRegShift kind dst rn rm rs shift c' flags := by
  by_cases hc : shift = .rrx ∨ kind.readsCarry ∨ kind.isLogical ∧ .cf ∈ flags.asSet
  · rw [h hc]
  · simp only [not_or, not_and] at hc
    obtain ⟨hrrx, hkind, hlog⟩ := hc
    have hres := shiftC_fst_carry hrrx (rm.setWidth 32) (rs &&& 0xFF).toNat c c'
    have hout (x y : BitVec 32) : armDpResult kind x y c = armDpResult kind x y c' := by
      cases kind <;> simp_all [armDpResult, ArmDpRegShiftKind.readsCarry]
    simp only [armDpRegShift, hres, hout, Effect.mk.injEq, FlagAct.assign.injEq, and_true,
      true_and]
    funext f
    by_cases hf : f ∈ flags.asSet
    · cases f <;> cases kind <;>
        simp_all [armDpResult, ArmDpRegShiftKind.isLogical]
    · simp [hf]

end Interpret

end Rax.Smir

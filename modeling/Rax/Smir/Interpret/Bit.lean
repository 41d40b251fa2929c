import Rax.Smir.Interpret.Shift

/-!
# Bit manipulation and data movement

Effects of the operations of `interpret/ops/bit.rs` and `interpret/ops/data_movement.rs`.
-/

namespace Rax.Smir.Interpret

/-- The bit position a bit test addresses. -/
def bitIndex (index : Word) (width : OpWidth) : Word :=
  index &&& BitVec.ofNat 64 (width.bits - 1)

/-- The record of every bit test. -/
def btRecord (val index : Word) (width : OpWidth) : LazyFlags :=
  { op := .bt, result := 0, left := val, right := bitIndex index width, width }

def bt (val index : Word) (width : OpWidth) : Effect :=
  { flags := .setLazy (btRecord val index width) }

/-- `Bts`, `Btr` and `Btc`. -/
def bitMod (kind : BitModKind) (dst : VReg) (val index : Word) (width : OpWidth) : Effect :=
  let one := Word.shl 1 (bitIndex index width).toNat
  let result : Word :=
    match kind with
    | .bts => val ||| one
    | .btr => val &&& ~~~one
    | .btc => val ^^^ one
  { writes := [.toGpr dst width (result &&& width.mask)]
    flags := .setLazy (btRecord val index width) }

/-- `Bsf` and `Bsr`. The position found by `Bsr` is computed from the leading zeros of the
whole word, modulo 2^32. -/
def scan (kind : ScanKind) (dst : VReg) (src : Word) (width : OpWidth) (flags : FlagUpdate) :
    Effect :=
  let val := src &&& width.mask
  let result : Word :=
    if val = 0 then 0
    else
      match kind with
      | .bsf => BitVec.ofNat 64 val.trailingZeros
      | .bsr =>
        (BitVec.ofNat 32 (width.bits - 1) - BitVec.ofNat 32 val.leadingZeros).setWidth 64
  let value (f : Flag) : Option Bool :=
    match f with
    | .zf => some (val == 0)
    | _ => none
  { writes := [.toGpr dst width result], flags := .onUpdate flags (.assign value none none) }

def bextr (dst : VReg) (src control : Word) (width : OpWidth) (flags : FlagUpdate) : Effect :=
  let start := (control &&& 0xff).toNat
  let len := ((control >>> 8) &&& 0xff).toNat
  let shifted := Word.shr (src &&& width.mask) start
  let field : Word :=
    if width.bits ≤ start ∨ len = 0 then 0
    else if width.bits ≤ len then shifted
    else shifted &&& (Word.shl 1 len - 1)
  let result := field &&& width.mask
  { writes := [.toGpr dst width result]
    flags := .onUpdate flags (.settleLazy (.bextr result width)) }

def bzhi (dst : VReg) (src index : Word) (width : OpWidth) (flags : FlagUpdate) : Effect :=
  let val := src &&& width.mask
  let index := index &&& 0xff
  let kept := if width.bits ≤ index.toNat then val else val &&& (Word.shl 1 index.toNat - 1)
  let result := kept &&& width.mask
  { writes := [.toGpr dst width result]
    flags := .onUpdate flags (.settleLazy (.bzhi index result width)) }

def x86Bls (dst : VReg) (src : Word) (width : OpWidth) (kind : X86BlsKind)
    (flags : FlagUpdate) : Effect :=
  let val := src &&& width.mask
  let result : Word :=
    (match kind with
    | .blsr => val &&& (val - 1)
    | .blsmsk => val ^^^ (val - 1)
    | .blsi => (0 - val) &&& val) &&& width.mask
  let op : LazyFlagOp :=
    match kind with
    | .blsr => .blsr
    | .blsmsk => .blsmsk
    | .blsi => .blsi
  { writes := [.toGpr dst width result]
    flags := .onUpdate flags (.settleLazy (.bls op val result width)) }

def x86Tbm (dst : VReg) (src : Word) (width : OpWidth) (kind : X86TbmKind)
    (flags : FlagUpdate) : Effect :=
  let val := src &&& width.mask
  let incremented := (val + 1) &&& width.mask
  let decremented := (val - 1) &&& width.mask
  let result : Word :=
    (match kind with
    | .blcfill => val &&& incremented
    | .blci => val ||| ~~~incremented
    | .blcic => ~~~val &&& incremented
    | .blcmsk => val ^^^ incremented
    | .blcs => val ||| incremented
    | .blsfill => val ||| decremented
    | .blsic => ~~~val ||| decremented
    | .t1mskc => ~~~val ||| incremented
    | .tzmsk => ~~~val &&& decremented) &&& width.mask
  let carry :=
    match kind with
    | .blsfill | .blsic | .tzmsk => val == 0
    | _ => val == width.mask
  let value (f : Flag) : Option Bool :=
    match f with
    | .cf => some carry
    | .of => some false
    | .sf => some (result &&& width.signBit != 0)
    | .zf => some (result == 0)
    | _ => none
  { writes := [.toGpr dst width result], flags := .onUpdate flags (.assign value none none) }

def x86Adx (dst : VReg) (src1 src2 : Word) (carry overflow : Bool) (width : OpWidth)
    (kind : X86AdxKind) (flags : FlagUpdate) : Effect :=
  let carryIn := match kind with
    | .adcx => carry
    | .adox => overflow
  let full := (src1 &&& width.mask).toNat + (src2 &&& width.mask).toNat +
    (if carryIn then 1 else 0)
  let carryOut := decide (width.mask.toNat < full)
  let value (f : Flag) : Option Bool :=
    match kind, f with
    | .adcx, .cf | .adox, .of => some carryOut
    | _, _ => none
  { writes := [.toGpr dst width (BitVec.ofNat 64 full &&& width.mask)]
    flags := .onUpdate flags (.assign value none none) }

/-- Scatter the low bits of `src` to the set positions of `mask`. -/
def deposit (src mask : Word) (bits : Nat) : Word :=
  ((List.range bits).foldl
    (fun (acc : Word × Nat) b =>
      if (Word.shr mask b).bit 0 then
        (if (Word.shr src acc.2).bit 0 then acc.1 ||| Word.shl 1 b else acc.1, acc.2 + 1)
      else acc)
    (0, 0)).1

/-- Gather the bits of `src` at the set positions of `mask`. -/
def extract (src mask : Word) (bits : Nat) : Word :=
  ((List.range bits).foldl
    (fun (acc : Word × Nat) b =>
      if (Word.shr mask b).bit 0 then
        (if (Word.shr src b).bit 0 then acc.1 ||| Word.shl 1 acc.2 else acc.1, acc.2 + 1)
      else acc)
    (0, 0)).1

def pdep (dst : VReg) (src mask : Word) (width : OpWidth) : Effect :=
  { writes := [.toGpr dst width
      (deposit (src &&& width.mask) (mask &&& width.mask) width.bits &&& width.mask)] }

def pext (dst : VReg) (src mask : Word) (width : OpWidth) : Effect :=
  { writes := [.toGpr dst width
      (extract (src &&& width.mask) (mask &&& width.mask) width.bits &&& width.mask)] }

/-- Leading zeros at a width, modulo 2^32. -/
def leadingZerosAt (val : Word) (width : OpWidth) : Word :=
  (BitVec.ofNat 32 val.leadingZeros - (64 - BitVec.ofNat 32 width.bits)).setWidth 64

/-- Trailing zeros at a width. -/
def trailingZerosAt (val : Word) (width : OpWidth) : Word :=
  if val = 0 then BitVec.ofNat 64 width.bits else BitVec.ofNat 64 val.trailingZeros

/-- `Clz`, `Ctz` and `Popcnt`. -/
def bitCount (kind : BitCountKind) (dst : VReg) (src : Word) (width : OpWidth) : Effect :=
  let val := src &&& width.mask
  let result : Word :=
    match kind with
    | .clz => leadingZerosAt val width
    | .ctz => trailingZerosAt val width
    | .popcnt => BitVec.ofNat 64 val.countOnes
  { writes := [.toGpr dst width result] }

def x86Count (dst : VReg) (src : Word) (width : OpWidth) (kind : X86CountKind)
    (flags : FlagUpdate) : Effect :=
  let val := src &&& width.mask
  let result : Word :=
    match kind with
    | .popcnt => BitVec.ofNat 64 val.countOnes
    | .tzcnt => trailingZerosAt val width
    | .lzcnt => leadingZerosAt val width
  let value (f : Flag) : Option Bool :=
    match kind, f with
    | .popcnt, .zf => some (val == 0)
    | .popcnt, _ => some false
    | _, .cf => some (val == 0)
    | _, .zf => some (result == 0)
    | _, _ => none
  { writes := [.toGpr dst width result]
    flags :=
      if flags.asSet = ∅ then .keep
      else .assign (fun f => if f ∈ flags.asSet then value f else none) none none }

def bswap (dst : VReg) (val : Word) (width : OpWidth) : Effect :=
  let swap (n : Nat) : Word := Word.fromLeBytes (val.toLeBytes n).reverse
  let result : Word :=
    match width with
    | .w16 => swap 2
    | .w32 => swap 4
    | .w64 => swap 8
    | _ => val
  { writes := [.toGpr dst width result] }

def rbit (dst : VReg) (val : Word) (width : OpWidth) : Effect :=
  let result : Word :=
    match width with
    | .w32 => (val.setWidth 32).reverse.setWidth 64
    | .w64 => val.reverse
    | _ => val
  { writes := [.toGpr dst width result] }

def bfx (dst : VReg) (val : Word) (lsb widthBits : Nat) (sext : Bool) (opWidth : OpWidth) :
    Effect :=
  let mask := Word.shl 1 widthBits - 1
  let extracted := Word.shr val lsb &&& mask
  let negative := sext && decide (0 < widthBits) &&
    (extracted &&& Word.shl 1 (widthBits - 1) != 0)
  let result := if negative then extracted ||| ~~~mask else extracted
  { writes := [⟨dst, .raw, result &&& opWidth.mask⟩] }

def bfi (dst : VReg) (dstIn src : Word) (lsb widthBits : Nat) (opWidth : OpWidth) : Effect :=
  let mask := Word.shl (Word.shl 1 widthBits - 1) lsb
  let result := (dstIn &&& ~~~mask) ||| (Word.shl src lsb &&& mask)
  { writes := [⟨dst, .raw, result &&& opWidth.mask⟩] }

def mov (dst : VReg) (val : Word) (width : OpWidth) : Effect :=
  { writes := [⟨dst, .part width, val⟩] }

/-- `CMove`: the destination is left alone when the condition fails. -/
def cmove (dst : VReg) (val : Word) (taken : Bool) (width : OpWidth) : Effect :=
  { writes := if taken then [⟨dst, .part width, val &&& width.mask⟩] else [] }

def select (dst : VReg) (cond srcTrue srcFalse : Word) (width : OpWidth) : Effect :=
  { writes := [⟨dst, .part width, if cond ≠ 0 then srcTrue else srcFalse⟩] }

/-- `ZeroExtend` and `SignExtend`, of bits 8 to 15 under the high-byte hint. -/
def extend (signed : Bool) (dst : VReg) (raw : Word) (highByte : Bool)
    (fromWidth toWidth : OpWidth) : Effect :=
  let val := (if highByte then raw >>> 8 else raw) &&& fromWidth.mask
  let result := if signed && (val &&& fromWidth.signBit != 0) then val ||| ~~~fromWidth.mask
    else val
  { writes := [⟨dst, .part toWidth, result⟩] }

def cwd (dst : VReg) (src : Word) (width : OpWidth) : Effect :=
  let result := if (src &&& width.mask) &&& width.signBit != 0 then width.mask else 0
  { writes := [⟨dst, .part width, result⟩] }

def xchg (reg1 reg2 : VReg) (v1 v2 : Word) (width : OpWidth) : Effect :=
  { writes := [⟨reg1, .part width, v2 &&& width.mask⟩, ⟨reg2, .part width, v1 &&& width.mask⟩] }

end Rax.Smir.Interpret

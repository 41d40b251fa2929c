import Rax.Smir.Machine

/-!
# Operations

The integer, memory and flag operations of SMIR (`smir/ir/ops.rs`). Operations of one shape
share a constructor that takes the member as its first argument, and each keeps its source
name as a pattern. Operations outside this core (floating point, vector, atomic, string and
system operations) are kept as `OtherOp`: their rows of the optimizer's tables together with
an arbitrary evaluation.
-/

namespace Rax.Smir

inductive ArithKind where
  | add | sub | adc | sbb
  deriving DecidableEq, Repr

inductive LogicKind where
  | and | or | xor | andNot
  deriving DecidableEq, Repr

inductive IncDecKind where
  | inc | dec
  deriving DecidableEq, Repr

inductive ShiftKind where
  | shl | shr | sar
  deriving DecidableEq, Repr

inductive RotateKind where
  | rol | ror
  deriving DecidableEq, Repr

inductive RotateCarryKind where
  | rcl | rcr
  deriving DecidableEq, Repr

inductive ArmDpRegShiftKind where
  | and | eor | sub | rsb | add | adc | sbc | rsc
  | tst | teq | cmp | cmn | orr | mov | bic | mvn
  deriving DecidableEq, Repr

namespace ArmDpRegShiftKind

def isLogical : ArmDpRegShiftKind → Bool
  | and | eor | tst | teq | orr | mov | bic | mvn => true
  | _ => false

def readsCarry : ArmDpRegShiftKind → Bool
  | adc | sbc | rsc => true
  | _ => false

end ArmDpRegShiftKind

/-- The bit-test forms that also change the bit. -/
inductive BitModKind where
  | bts | btr | btc
  deriving DecidableEq, Repr

inductive ScanKind where
  | bsf | bsr
  deriving DecidableEq, Repr

inductive X86BlsKind where
  | blsr | blsmsk | blsi
  deriving DecidableEq, Repr

inductive X86TbmKind where
  | blcfill | blci | blcic | blcmsk | blcs | blsfill | blsic | t1mskc | tzmsk
  deriving DecidableEq, Repr

inductive X86AdxKind where
  | adcx | adox
  deriving DecidableEq, Repr

inductive BitCountKind where
  | clz | ctz | popcnt
  deriving DecidableEq, Repr

inductive X86CountKind where
  | popcnt | tzcnt | lzcnt
  deriving DecidableEq, Repr

/-- The processor features that a guard operation can require. -/
inductive X86Feature where
  | apx | sse4a | tbm | xop
  deriving DecidableEq, Repr

/-- A register operand of the exchange operations, possibly bits 8 to 15 of it. -/
structure X86GprOperand where
  reg : X86Reg
  highByte : Bool := false
  deriving DecidableEq, Repr

def X86GprOperand.vreg (o : X86GprOperand) : VReg := .x86 o.reg

/-- An operation outside the integer core: its table rows and any evaluation that looks at
finitely many registers and some of the flags, and writes finitely many registers. The
vector, floating-point and system state it works on is part of `μ`. -/
structure OtherOp (μ : Type) where
  dests : List VReg
  sources : List VReg
  outWidth : Option OpWidth
  sideEffects : Bool
  preciseDeopt : Bool
  writesMemory : Bool
  flagsWritten : FlagSet
  flagsMustWrite : FlagSet
  flagsRead : FlagSet
  reads : List VReg
  flagReads : FlagSet
  written : List VReg
  eval : Env → Inputs μ → Evaluated μ
  eval_congr : ∀ env (i j : Inputs μ), i.Agree reads flagReads true j → eval env i = eval env j
  eval_written : ∀ env i eff, (eval env i).2 = .ok eff → ∀ w ∈ eff.writes, w.dst ∈ written

inductive OpKind (μ : Type) where
  | arith (kind : ArithKind) (dst src1 : VReg) (src2 : SrcOperand) (width : OpWidth)
      (flags : FlagUpdate)
  | neg (dst src : VReg) (width : OpWidth) (flags : FlagUpdate)
  | incDec (kind : IncDecKind) (dst src : VReg) (width : OpWidth) (flags : FlagUpdate)
  | cmp (src1 : VReg) (src2 : SrcOperand) (width : OpWidth)
  | mul (signed : Bool) (dstLo : VReg) (dstHi : Option VReg) (src1 : VReg) (src2 : SrcOperand)
      (width : OpWidth) (flags : FlagUpdate)
  | mulAcc (sub : Bool) (dst acc src1 src2 : VReg) (width : OpWidth)
  | div (signed : Bool) (quot : VReg) (rem : Option VReg) (src1 : VReg) (src2 : SrcOperand)
      (width : OpWidth) (flags : FlagUpdate)
  | logic (kind : LogicKind) (dst src1 : VReg) (src2 : SrcOperand) (width : OpWidth)
      (flags : FlagUpdate)
  | not (dst src : VReg) (width : OpWidth)
  | test (src1 : VReg) (src2 : SrcOperand) (width : OpWidth)
  | shift (kind : ShiftKind) (dst src : VReg) (amount : SrcOperand) (width : OpWidth)
      (flags : FlagUpdate)
  | doubleShift (left : Bool) (dst src : VReg) (amount : SrcOperand) (width : OpWidth)
      (flags : FlagUpdate)
  | x86NddDoubleShift (dst base fill : VReg) (amount : SrcOperand) (width : OpWidth)
      (left : Bool) (flags : FlagUpdate)
  | rotate (kind : RotateKind) (dst src : VReg) (amount : SrcOperand) (width : OpWidth)
      (flags : FlagUpdate)
  | armRegShift (dst src : VReg) (amount : SrcOperand) (shift : ShiftOp) (width : OpWidth)
      (flags : FlagUpdate)
  | armDpRegShift (kind : ArmDpRegShiftKind) (dst rn : Option VReg) (rm rs : VReg)
      (shift : ShiftOp) (flags : FlagUpdate)
  | rotateCarry (kind : RotateCarryKind) (dst src : VReg) (amount : SrcOperand)
      (width : OpWidth) (flags : FlagUpdate)
  | bidirShift (dst : VReg) (src amount : SrcOperand) (kind : Nat) (width : OpWidth)
  | satN (dst : VReg) (src : SrcOperand) (satBits : Nat) (signed setOvf : Bool)
      (width : OpWidth)
  | clMul (dst : VReg) (dstHi : Option VReg) (src1 src2 : SrcOperand) (elemBits lanes : Nat)
      (acc : Bool)
  | crc32C (dst crc data : VReg) (dataWidth : OpWidth)
  | cmpyW128Sat (dst rssLo rssHi rttLo rttHi : VReg) (w0 w1 w2 w3 : Nat) (add rnd : Bool)
  | satOrigShl (dst : VReg) (src amount : SrcOperand) (right : Bool) (width : OpWidth)
  | bt (src : VReg) (index : SrcOperand) (width : OpWidth)
  | bitMod (kind : BitModKind) (dst src : VReg) (index : SrcOperand) (width : OpWidth)
  | scan (kind : ScanKind) (dst src : VReg) (width : OpWidth) (flags : FlagUpdate)
  | bextr (dst src control : VReg) (width : OpWidth) (flags : FlagUpdate)
  | bzhi (dst src index : VReg) (width : OpWidth) (flags : FlagUpdate)
  | x86Bls (dst src : VReg) (width : OpWidth) (kind : X86BlsKind) (flags : FlagUpdate)
  | x86Tbm (dst src : VReg) (width : OpWidth) (kind : X86TbmKind) (flags : FlagUpdate)
  | x86Adx (dst src1 src2 : VReg) (width : OpWidth) (kind : X86AdxKind) (flags : FlagUpdate)
  | pdep (dst src mask : VReg) (width : OpWidth)
  | pext (dst src mask : VReg) (width : OpWidth)
  | bitCount (kind : BitCountKind) (dst src : VReg) (width : OpWidth)
  | x86Count (dst src : VReg) (width : OpWidth) (kind : X86CountKind) (flags : FlagUpdate)
  | bswap (dst src : VReg) (width : OpWidth)
  | rbit (dst src : VReg) (width : OpWidth)
  | bfx (dst src : VReg) (lsb widthBits : Nat) (signExtend : Bool) (opWidth : OpWidth)
  | bfi (dst dstIn src : VReg) (lsb widthBits : Nat) (opWidth : OpWidth)
  | mov (dst : VReg) (src : SrcOperand) (width : OpWidth)
  | cmove (dst src : VReg) (cond : Condition) (width : OpWidth)
  | select (dst cond srcTrue srcFalse : VReg) (width : OpWidth)
  | extend (signed : Bool) (dst src : VReg) (fromWidth toWidth : OpWidth)
  | cwd (dst src : VReg) (width : OpWidth)
  | truncate (dst src : VReg) (fromWidth toWidth : OpWidth)
  | lea (dst : VReg) (addr : Address)
  | x86Lea (dst : VReg) (addr : Address) (width : OpWidth)
  | xchg (reg1 reg2 : VReg) (width : OpWidth)
  | x86Xadd (dst src : X86GprOperand) (width : OpWidth) (flags : FlagUpdate)
  | x86Cmpxchg (dst src : X86GprOperand) (width : OpWidth) (flags : FlagUpdate)
  | load (dst : VReg) (addr : Address) (width : MemWidth) (extend : SignExtend)
  | store (src : VReg) (addr : Address) (width : MemWidth)
  | predLoad (dst cond : VReg) (addr : Address) (width : MemWidth) (extend : SignExtend)
  | predStore (src : SrcOperand) (cond : VReg) (addr : Address) (width : MemWidth)
  | loadPair (dst1 dst2 : VReg) (addr : Address) (width : MemWidth)
  | storePair (src1 src2 : VReg) (addr : Address) (width : MemWidth)
  | ioIn (dst port : VReg) (width : MemWidth)
  | ioOut (port value : VReg) (width : MemWidth)
  | readFlags (dst : VReg)
  | writeFlags (src : VReg)
  | setCF (value : Bool)
  | setDF (value : Bool)
  | setAC (value : Bool)
  | cmcCF
  | materializeFlags
  | x86XTest
  | testCondition (dst : VReg) (cond : Condition)
  | setCC (dst : VReg) (cond : Condition) (width : OpWidth)
  | x86Require (feature : X86Feature)
  | nop
  | undefined (opcode : Nat)
  | breakpoint
  | other (op : OtherOp μ)

/-- An operation with the guest address it was lifted from. Of the encoding hints only the
one that selects a legacy high-byte source is read by the interpreter. -/
structure SmirOp (μ : Type) where
  guestPc : Word
  kind : OpKind μ
  legacyHighByte : Bool := false

namespace OpKind

variable {μ : Type}

@[match_pattern] abbrev add := @arith μ .add
@[match_pattern] abbrev sub := @arith μ .sub
@[match_pattern] abbrev adc := @arith μ .adc
@[match_pattern] abbrev sbb := @arith μ .sbb
@[match_pattern] abbrev inc := @incDec μ .inc
@[match_pattern] abbrev dec := @incDec μ .dec
@[match_pattern] abbrev mulU := @mul μ false
@[match_pattern] abbrev mulS := @mul μ true
@[match_pattern] abbrev mulAdd := @mulAcc μ false
@[match_pattern] abbrev mulSub := @mulAcc μ true
@[match_pattern] abbrev divU := @div μ false
@[match_pattern] abbrev divS := @div μ true
@[match_pattern] abbrev and := @logic μ .and
@[match_pattern] abbrev or := @logic μ .or
@[match_pattern] abbrev xor := @logic μ .xor
@[match_pattern] abbrev andNot := @logic μ .andNot
@[match_pattern] abbrev shl := @shift μ .shl
@[match_pattern] abbrev shr := @shift μ .shr
@[match_pattern] abbrev sar := @shift μ .sar
@[match_pattern] abbrev shld := @doubleShift μ true
@[match_pattern] abbrev shrd := @doubleShift μ false
@[match_pattern] abbrev rol := @rotate μ .rol
@[match_pattern] abbrev ror := @rotate μ .ror
@[match_pattern] abbrev rcl := @rotateCarry μ .rcl
@[match_pattern] abbrev rcr := @rotateCarry μ .rcr
@[match_pattern] abbrev bts := @bitMod μ .bts
@[match_pattern] abbrev btr := @bitMod μ .btr
@[match_pattern] abbrev btc := @bitMod μ .btc
@[match_pattern] abbrev bsf := @scan μ .bsf
@[match_pattern] abbrev bsr := @scan μ .bsr
@[match_pattern] abbrev clz := @bitCount μ .clz
@[match_pattern] abbrev ctz := @bitCount μ .ctz
@[match_pattern] abbrev popcnt := @bitCount μ .popcnt
@[match_pattern] abbrev zeroExtend := @extend μ false
@[match_pattern] abbrev signExtend := @extend μ true
@[match_pattern] abbrev x86RequireApx := @x86Require μ .apx
@[match_pattern] abbrev x86RequireSse4a := @x86Require μ .sse4a
@[match_pattern] abbrev x86RequireTbm := @x86Require μ .tbm
@[match_pattern] abbrev x86RequireXop := @x86Require μ .xop

end OpKind

end Rax.Smir

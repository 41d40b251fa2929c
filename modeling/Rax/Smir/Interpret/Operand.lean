import Rax.Smir.Ops

/-!
# Operands, addresses and memory accesses

`read_src_operand`, `compute_address`, `load_memory` and `store_memory` of
`smir/interpret/state.rs`, and the registers that each of them reads. Shift counts beyond
the word size wrap, as in a release build.
-/

namespace Rax.Smir

/-- `sign_extend`: the value itself, unmasked, when its sign bit at the width is clear. -/
def signExtend (v : Word) (width : OpWidth) : Word :=
  if v &&& width.signBit != 0 then v ||| ~~~width.mask else v

/-- `sext128`: sign-extend the low `bits` bits. -/
def sext128 (v : BitVec 128) (bits : Nat) : BitVec 128 :=
  if 128 ≤ bits then v else (v <<< (128 - bits)).sshiftRight (128 - bits)

def readSrcOperand (read : VReg → Word) : SrcOperand → Word
  | .reg r => read r
  | .imm val | .imm64 val => val
  | .shifted reg shift amount =>
    let val := read reg
    match shift with
    | .lsl => Word.shl val amount
    | .lsr => Word.shr val amount
    | .asr => Word.sar val amount
    | .ror => val.rotateRight amount
    | .rrx => val >>> 1
  | .extended reg extend shift =>
    let val := read reg
    let extended : Word :=
      match extend with
      | .uxtb => val &&& 0xFF
      | .uxth => val &&& 0xFFFF
      | .uxtw => val &&& 0xFFFFFFFF
      | .uxtx | .sxtx => val
      | .sxtb => (val.setWidth 8).signExtend 64
      | .sxth => (val.setWidth 16).signExtend 64
      | .sxtw => (val.setWidth 32).signExtend 64
    Word.shl extended shift

theorem readSrcOperand_congr {read read' : VReg → Word} {src : SrcOperand}
    (h : ∀ r ∈ src.regs, read r = read' r) :
    readSrcOperand read src = readSrcOperand read' src := by
  cases src <;> simp [SrcOperand.regs] at h <;> simp [readSrcOperand, h]

/-- Registers that the evaluation of an address reads, the global pointer included. -/
def Address.reads : Address → List VReg
  | x86Addr32 inner => inner.reads
  | gpRel _ => [.arch (.hexagon .gp)]
  | addr => addr.regs

/-- Whether an address is relative to the program counter of the context. -/
def Address.readsPc : Address → Bool
  | x86Addr32 inner => inner.readsPc
  | pcRel _ base => base.isNone
  | _ => false

/-- `compute_address`, and `compute_x86_addr32` when `addr32` is set: all but a segment base
is then computed modulo 2^32. -/
def computeAddressAt (env : Env) (read : VReg → Word) (pc : Word) (addr32 : Bool) :
    Address → Word
  | .x86Addr32 inner => computeAddressAt env read pc true inner
  | .segmentRel segment base index scale disp =>
    let base := (base.map read).getD 0
    let index := (index.map read).getD 0
    if addr32 then
      read segment + (base + index * BitVec.ofNat 64 scale + disp).low32
    else read segment + base + index * BitVec.ofNat 64 scale + disp
  | .direct r => trunc (read r)
  | .baseOffset base offset => trunc (read base + offset)
  | .baseIndexScale base index scale disp =>
    trunc ((base.map read).getD 0 + read index * BitVec.ofNat 64 scale + disp)
  | .pcRel offset base => trunc (base.getD pc + offset)
  | .gpRel offset =>
    let gp := if env.arch = .hexagon then read (.arch (.hexagon .gp)) else 0
    trunc (gp + offset)
  | .absolute addr => trunc addr
where
  trunc (v : Word) : Word := if addr32 then v.low32 else v

def computeAddress (env : Env) {μ : Type} (i : Inputs μ) (addr : Address) : Word :=
  computeAddressAt env i.read i.pc false addr

theorem computeAddressAt_congr {env : Env} {read read' : VReg → Word} {pc pc' : Word}
    {addr : Address} (h : ∀ r ∈ addr.reads, read r = read' r)
    (hpc : addr.readsPc = true → pc = pc') (addr32 : Bool) :
    computeAddressAt env read pc addr32 addr = computeAddressAt env read' pc' addr32 addr := by
  induction addr generalizing addr32 with
  | x86Addr32 inner ih => exact ih h hpc true
  | pcRel offset base => cases base <;> simp_all [computeAddressAt, Address.readsPc]
  | segmentRel segment base index scale disp =>
    simp [Address.reads, Address.regs] at h
    cases base <;> cases index <;> simp_all [computeAddressAt]
  | baseIndexScale base index scale disp =>
    simp [Address.reads, Address.regs] at h
    cases base <;> simp_all [computeAddressAt]
  | _ =>
    simp [Address.reads, Address.regs] at h
    simp [computeAddressAt, h]

section Memory

variable {μ : Type} [SmirMemory μ]

/-- Extend the bytes of a scalar load to a word. -/
def extendLoaded (bytes : List Byte) (size : Nat) (extend : SignExtend) : Word :=
  let raw := Word.fromLeBytes bytes
  if 8 ≤ size then raw
  else
    match extend with
    | .zero => raw &&& Word.lowMask (8 * size)
    | .sign => (raw <<< (64 - 8 * size)).sshiftRight (64 - 8 * size)

/-- `load_memory`. A width above eight bytes indexes past the interpreter's buffer. -/
def loadMemory (mem : μ) (addr : Word) (width : MemWidth) (extend : SignExtend) :
    μ × Except Fault Word :=
  if 8 < width.bytes then (mem, .error .panic)
  else
    match SmirMemory.read mem addr width.bytes with
    | (mem, .error e) => (mem, .error (.memory e))
    | (mem, .ok bytes) => (mem, .ok (extendLoaded bytes width.bytes extend))

/-- `store_memory`. -/
def storeMemory (mem : μ) (addr value : Word) (width : MemWidth) : μ × Except Fault Unit :=
  if 8 < width.bytes then (mem, .error .panic)
  else
    match SmirMemory.write mem addr (value.toLeBytes width.bytes) with
    | (mem, .error e) => (mem, .error (.memory e))
    | (mem, .ok ()) => (mem, .ok ())

end Memory

end Rax.Smir

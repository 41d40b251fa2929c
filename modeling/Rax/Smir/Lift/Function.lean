import Rax.Lib.IdTable
import Rax.Lib.Result
import Rax.Smir.Function

/-!
# Lifting a function

`lift_block` and `lift_function` of the x86-64 lifter (`smir/lift/x86_64/mod.rs`). Blocks are found
with a worklist of guest addresses; the context gives every address a block number, in a `u32`
that wraps in a release build. The instruction decoder and the iteration order of the hash map
of block numbers are parameters.

As long as the numbers have not come round, the result is a closed control-flow graph. When they
have, a jump can end in the block of another address.
-/

namespace Rax.Smir.Lift

inductive LiftError where
  | invalidEncoding (addr : Word) (bytes : List Byte)
  | unsupported (addr : Word) (mnemonic : String)
  | memoryError (addr : Word) (error : MemoryError)
  | incomplete (addr : Word) (available needed : Nat)
  | internal (message : String)

/-- Why lifting returns no result: an error, a panic, or that it has not come to an end. -/
inductive Failure where
  | error (e : LiftError)
  | panic
  | unfinished

/-- Control flow after an instruction. -/
inductive ControlFlow where
  | fallthrough
  | nextInsn
  | branch (target : Word)
  | directBranch (target : Word)
  | condBranch (cond : Condition) (target fallthrough : Word)
  | condBranchReg (cond : VReg) (taken notTaken : Word)
  | indirectBranch (target : VReg)
  | indirectBranchMem (addr : Address)
  | call (target : CallTarget)
  | ret
  | trap (kind : TrapKind)
  | syscall

structure LiftResult (μ : Type) where
  ops : List (SmirOp μ)
  bytesConsumed : Nat
  controlFlow : ControlFlow

/-- The part of the lifter below blocks: `lift_insn_inner`, which also counts temporaries, and the
target register of a far jump, call or return or of a fast system transfer. -/
structure Decoder (μ : Type) where
  liftInsnInner : Word → List Byte → Nat → Nat × Except LiftError (LiftResult μ)
  transferTarget : SmirOp μ → Option VReg

/-- The settings of the lifter that are read above instructions. -/
structure X86Lifter where
  interpreterFrontiers : Bool := false
  liftThroughCalls : Bool := false
  maxBlocks : Nat := 0
  deriving DecidableEq, Repr

/-- Block numbers are `u32`. -/
def blockIds : Nat := 2 ^ 32

/-- `block_cache` with `block_alloc`, and the counter of temporaries. -/
structure LiftContext where
  blocks : IdTable Word := {}
  nextVreg : Nat := 0

/-- `get_or_create_block` -/
def LiftContext.getOrCreateBlock (ctx : LiftContext) (addr : Word) : BlockId × LiftContext :=
  ((ctx.blocks.intern blockIds addr).1, { ctx with blocks := (ctx.blocks.intern blockIds addr).2 })

/-- `is_x86_state_backed_shape` -/
def stateBacked : Address → Bool
  | .x86Addr32 (.x86Addr32 _) | .x86Addr32 (.pcRel ..) => false
  | .x86Addr32 inner => stateBacked inner
  | .direct base | .baseOffset base _ => gpr base
  | .baseIndexScale base index scale _ => base.all gpr && gpr index && validScale scale
  | .pcRel _ base => base.isSome
  | .absolute _ => true
  | .segmentRel segment base index scale _ =>
    (segment == .x86 .fsBase || segment == .x86 .gsBase) && base.all gpr && index.all gpr &&
      validScale scale
  | .gpRel _ => false
where
  gpr : VReg → Bool
    | .arch (.x86 (.gpr _)) => true
    | _ => false
  validScale (scale : Nat) : Bool := [1, 2, 4, 8].contains scale

/-- `is_x86_addr32_state_backed_shape` -/
def addr32StateBacked : Address → Bool
  | .pcRel .. => false
  | addr => stateBacked addr

/-- `x86_interpreter_frontier_error` -/
def frontierError : LiftError → Bool
  | .internal _ => false
  | _ => true

/-- `x86_interpreter_frontier_control_flow` -/
def frontierControlFlow {μ : Type} (d : Decoder μ) (result : LiftResult μ)
    (liftThroughCalls : Bool) : Bool :=
  match result.controlFlow with
  | .indirectBranch target => (result.ops.getLast?.bind d.transferTarget) != some target
  | .indirectBranchMem _ | .ret | .trap _ | .syscall => true
  | .call target =>
    !liftThroughCalls ||
      !match target with
        | .guestAddr _ | .indirect _ => true
        | .indirectMem addr => stateBacked addr
        | .x86IndirectMemAddr32 addr => addr32StateBacked addr
        | _ => false
  | _ => false

/-- How the walk through a block ends: before an instruction that is left to the interpreter, or
with a control transfer. -/
inductive BlockEnd where
  | frontier (pc : Word)
  | branch (target : Word)
  | condBranch (cond : Condition) (target fallthrough pc : Word)
  | condBranchReg (cond : VReg) (taken notTaken : Word)
  | indirectBranch (target : VReg)
  | indirectBranchMem (addr : Address)
  | call (target : CallTarget) (continuation : Word)
  | ret
  | trap (kind : TrapKind)
  | syscall

/-- The end of a block at an instruction that is followed by `pc`, if it ends there. -/
def ControlFlow.blockEnd (pc : Word) : ControlFlow → Option BlockEnd
  | fallthrough | nextInsn => none
  | branch target | directBranch target => some (.branch target)
  | condBranch cond target next => some (.condBranch cond target next pc)
  | condBranchReg cond taken notTaken => some (.condBranchReg cond taken notTaken)
  | indirectBranch target => some (.indirectBranch target)
  | indirectBranchMem addr => some (.indirectBranchMem addr)
  | call target => some (.call target pc)
  | ret => some .ret
  | trap kind => some (.trap kind)
  | syscall => some .syscall

/-- State of the walk: the next instruction, the temporaries, the instruction buffer, and what
has been lifted. -/
structure Walk (μ : Type) where
  pc : Word
  nextVreg : Nat
  buf : List Byte := List.replicate 15 0
  ops : List (SmirOp μ) := []
  bytes : List (Word × List Byte) := []

section Lift

variable {μ : Type} (d : Decoder μ) (lifter : X86Lifter)
  (mem : Word → Nat → Except MemoryError (List Byte))

/-- The loop of `lift_block`. -/
def liftInsns : Nat → Walk μ → Except Failure (Walk μ × BlockEnd)
  | 0, _ => .error .unfinished
  | n + 1, w =>
    match mem w.pc 15 with
    | .error error =>
      if lifter.interpreterFrontiers && frontierError (.memoryError w.pc error) then
        .ok (w, .frontier w.pc)
      else .error (.error (.memoryError w.pc error))
    | .ok bytes =>
      if 15 < bytes.length then .error .panic
      else
        let buf := bytes ++ w.buf.drop bytes.length
        match d.liftInsnInner w.pc bytes w.nextVreg with
        | (nextVreg, .error e) =>
          if lifter.interpreterFrontiers && frontierError e then
            .ok ({ w with nextVreg, buf }, .frontier w.pc)
          else .error (.error e)
        | (nextVreg, .ok result) =>
          if lifter.interpreterFrontiers &&
              frontierControlFlow d result lifter.liftThroughCalls then
            .ok ({ w with nextVreg, buf }, .frontier w.pc)
          else if 15 < result.bytesConsumed then .error .panic
          else
            let next : Walk μ :=
              { pc := w.pc + BitVec.ofNat 64 result.bytesConsumed
                nextVreg
                buf
                ops := w.ops ++ result.ops
                -- An instruction of no bytes is not recorded.
                bytes :=
                  if result.bytesConsumed = 0 then w.bytes
                  else w.bytes ++ [(w.pc, buf.take result.bytesConsumed)] }
            match result.controlFlow.blockEnd next.pc with
            | some ending => .ok (next, ending)
            | none => liftInsns n next

/-- The terminator for the end of the block at `addr`, with the operations that go before it. -/
def terminate (addr : Word) (ctx : LiftContext) :
    BlockEnd → List (SmirOp μ) × Terminator × LiftContext
  | .frontier pc =>
    if pc = addr then ([], .ret [], ctx)
    else
      let (target, ctx) := ctx.getOrCreateBlock pc
      ([], .branch target, ctx)
  | .branch target =>
    let (target, ctx) := ctx.getOrCreateBlock target
    ([], .branch target, ctx)
  | .condBranch cond target fallthrough pc =>
    let condVreg := VReg.virt ctx.nextVreg
    let (trueTarget, ctx) := { ctx with nextVreg := ctx.nextVreg + 1 }.getOrCreateBlock target
    let (falseTarget, ctx) := ctx.getOrCreateBlock fallthrough
    ([{ guestPc := pc, kind := .testCondition condVreg cond }],
      .condBranch condVreg trueTarget falseTarget, ctx)
  | .condBranchReg cond taken notTaken =>
    let (trueTarget, ctx) := ctx.getOrCreateBlock taken
    let (falseTarget, ctx) := ctx.getOrCreateBlock notTaken
    ([], .condBranch cond trueTarget falseTarget, ctx)
  | .indirectBranch target => ([], .indirectBranch target [], ctx)
  | .indirectBranchMem addr => ([], .indirectBranchMem addr [], ctx)
  | .call target continuation =>
    let (continuation, ctx) := ctx.getOrCreateBlock continuation
    ([], .call target [] continuation, ctx)
  | .ret => ([], .ret [], ctx)
  | .trap kind => ([], .trap kind, ctx)
  | .syscall => ([], .tailCall (.runtime .syscall) [], ctx)

/-- A lifted block with its recorded instruction bytes. -/
structure LiftedBlock (μ : Type) where
  block : SmirBlock μ
  bytes : List (Word × List Byte)
  ctx : LiftContext

def liftBlock (fuel : Nat) (ctx : LiftContext) (addr : Word) : Except Failure (LiftedBlock μ) := do
  let (id, ctx) := ctx.getOrCreateBlock addr
  let (w, ending) ← liftInsns d lifter mem fuel { pc := addr, nextVreg := ctx.nextVreg }
  let (extra, terminator, ctx) := terminate addr { ctx with nextVreg := w.nextVreg } ending
  pure
    { block := { id, guestPc := addr, ops := w.ops ++ extra, terminator }
      bytes := w.bytes
      ctx }

/-- The targets that `lift_function` follows: those of branches, and the continuation of a call when
calls are lifted through. -/
def followed : Terminator → List BlockId
  | .branch target => [target]
  | .condBranch _ trueTarget falseTarget => [trueTarget, falseTarget]
  | .call _ _ continuation => if lifter.liftThroughCalls then [continuation] else []
  | _ => []

/-- An iteration order of a hash map. -/
structure IterationOrder where
  list : List (Word × BlockId) → List (Word × BlockId)
  perm : ∀ entries, (list entries).Perm entries

/-- The first address with a block number, in iteration order. -/
def LiftContext.addressOf (ctx : LiftContext) (order : IterationOrder) (id : BlockId) :
    Option Word :=
  ((order.list ctx.blocks.entries).find? fun entry => entry.2 == id).map Prod.fst

/-- State of `lift_function`. The top of the worklist is its head. -/
structure Lifting (μ : Type) where
  ctx : LiftContext
  worklist : List Word
  visited : List Word := []
  blocks : List (SmirBlock μ) := []
  bytes : List ((BlockId × Word) × List Byte) := []

variable (order : IterationOrder)

/-- Whether the limit on lifted blocks has been reached. -/
def Lifting.full (s : Lifting μ) : Bool :=
  lifter.liftThroughCalls && lifter.maxBlocks != 0 && decide (lifter.maxBlocks ≤ s.visited.length)

/-- One round of the worklist, with `addr` taken off it. Beyond the limit an address becomes an
empty block that returns to the interpreter. -/
def Lifting.visit (fuel : Nat) (s : Lifting μ) (addr : Word) (rest : List Word) :
    Except Failure (Lifting μ) :=
  if addr ∈ s.visited then .ok { s with worklist := rest }
  else if s.full lifter then
    let (id, ctx) := s.ctx.getOrCreateBlock addr
    .ok { s with
      ctx
      worklist := rest
      visited := s.visited ++ [addr]
      blocks := s.blocks ++ [{ id, guestPc := addr, terminator := .ret [] }] }
  else do
    let lifted ← liftBlock d lifter mem fuel s.ctx addr
    let found := (followed lifter lifted.block.terminator).filterMap (lifted.ctx.addressOf order)
    pure
      { ctx := lifted.ctx
        worklist := found.reverse ++ rest
        visited := s.visited ++ [addr]
        blocks := s.blocks ++ [lifted.block]
        bytes := s.bytes ++ lifted.bytes.map fun entry => ((lifted.block.id, entry.1), entry.2) }

/-- The loop of `lift_function`: at most `fuel` rounds, and at most `fuel` instructions in each
block. -/
def Lifting.run (fuel : Nat) : Nat → Lifting μ → Except Failure (Lifting μ)
  | 0, _ => .error .unfinished
  | n + 1, s =>
    match s.worklist with
    | [] => .ok s
    | addr :: rest => do
      let s ← s.visit d lifter mem order fuel addr rest
      run fuel n s

/-- The function lifted, with the context left behind. -/
def liftFunction (fuel : Nat) (ctx : LiftContext) (entry : Word) :
    Except Failure (SmirFunction μ × LiftContext) := do
  let (entryBlock, ctx) := ctx.getOrCreateBlock entry
  let s ← Lifting.run d lifter mem order fuel fuel { ctx, worklist := [entry] }
  pure
    ({ entry := entryBlock
       blocks := s.blocks
       preserveInterpreterFrontiers :=
         lifter.interpreterFrontiers || (lifter.liftThroughCalls && lifter.maxBlocks != 0)
       -- The last entry for a key counts.
       x86InstructionBytes := fun id pc =>
         (s.bytes.reverse.find? fun entry => entry.1 == (id, pc)).map Prod.snd },
      s.ctx)

/-- The walk from `addr` ends at `ending`. -/
def EndsAt (addr : Word) (ending : BlockEnd) : Prop :=
  ∃ fuel nextVreg w, liftInsns d lifter mem fuel { pc := addr, nextVreg } = .ok (w, ending)

/-- The addresses that the block at `addr` goes on to, in the order of its targets. -/
def BlockEnd.addresses (addr : Word) : BlockEnd → List Word
  | frontier pc => if pc = addr then [] else [pc]
  | branch target => [target]
  | condBranch _ target fallthrough _ => [target, fallthrough]
  | condBranchReg _ taken notTaken => [taken, notTaken]
  | call _ continuation => if lifter.liftThroughCalls then [continuation] else []
  | _ => []

/-- The block is an empty one that returns to the interpreter, or it ends as the code at its address
does and its targets stand in a relation to the addresses that the code goes on to. -/
def Follows (R : BlockId → Word → Prop) (block : SmirBlock μ) : Prop :=
  (block.ops = [] ∧ block.terminator = .ret []) ∨
    ∃ ending, EndsAt d lifter mem block.guestPc ending ∧
      List.Forall₂ R (followed lifter block.terminator) (ending.addresses lifter block.guestPc)

/-- A closed control-flow graph over the code in memory: the targets of every block are the blocks
at the addresses that its code goes on to. -/
structure ClosedCfg (entry : Word) (func : SmirFunction μ) : Prop where
  ids : func.DistinctIds
  addresses : (func.blocks.map (·.guestPc)).Nodup
  entry : ∃ block ∈ func.blocks, block.id = func.entry ∧ block.guestPc = entry
  targets : ∀ block ∈ func.blocks, Follows d lifter mem
    (fun id addr => ∃ target ∈ func.blocks, target.id = id ∧ target.guestPc = addr) block

end Lift

/-- A context in which more addresses have numbers. -/
structure LiftContext.Extends (ctx ctx' : LiftContext) : Prop where
  entries : ctx.blocks.entries <+: ctx'.blocks.entries
  numbered : ctx.blocks.Numbered blockIds → ctx'.blocks.Numbered blockIds

namespace LiftContext

variable {ctx ctx' ctx'' : LiftContext}

theorem Extends.refl (ctx : LiftContext) : ctx.Extends ctx := ⟨List.prefix_refl _, id⟩

theorem Extends.trans (h : ctx.Extends ctx') (h' : ctx'.Extends ctx'') : ctx.Extends ctx'' :=
  ⟨h.entries.trans h'.entries, h'.numbered ∘ h.numbered⟩

theorem Extends.mem (h : ctx.Extends ctx') {entry : Word × BlockId}
    (hentry : entry ∈ ctx.blocks.entries) : entry ∈ ctx'.blocks.entries :=
  h.entries.subset hentry

theorem getOrCreateBlock_extends (ctx : LiftContext) (addr : Word) :
    ctx.Extends (ctx.getOrCreateBlock addr).2 :=
  ⟨IdTable.entries_prefix_intern _ _ _, fun h => h.intern addr⟩

theorem mem_getOrCreateBlock (ctx : LiftContext) (addr : Word) :
    (addr, (ctx.getOrCreateBlock addr).1) ∈ (ctx.getOrCreateBlock addr).2.blocks.entries :=
  IdTable.mem_intern _ _ _

/-- As long as the numbers have not come round, the address of a number is found. -/
theorem addressOf_eq_some (order : IterationOrder) {addr : Word} {id : BlockId}
    (hnum : ctx.blocks.Numbered blockIds) (hsize : ctx.blocks.entries.length ≤ blockIds)
    (h : (addr, id) ∈ ctx.blocks.entries) : ctx.addressOf order id = some addr := by
  rw [addressOf]
  cases hfind : (order.list ctx.blocks.entries).find? fun entry => entry.2 == id with
  | none =>
    have hmem : (addr, id) ∈ order.list ctx.blocks.entries := (order.perm _).mem_iff.mpr h
    exact absurd (List.find?_eq_none.mp hfind _ hmem) (by simp)
  | some entry =>
    obtain ⟨found, id'⟩ := entry
    have hid : id' = id := by simpa using List.find?_some hfind
    have hmem : (found, id') ∈ ctx.blocks.entries :=
      (order.perm _).mem_iff.mp (List.mem_of_find?_eq_some hfind)
    rw [hid] at hmem
    rw [hnum.key_unique hsize h hmem]
    rfl

end LiftContext

section Closed

variable {μ : Type} {d : Decoder μ} {lifter : X86Lifter}
  {mem : Word → Nat → Except MemoryError (List Byte)} {order : IterationOrder}

/-- Block numbers stand for addresses. -/
def Stand (ctx : LiftContext) : List BlockId → List Word → Prop :=
  List.Forall₂ fun id addr => (addr, id) ∈ ctx.blocks.entries

theorem stand_pair (ctx : LiftContext) (a b : Word) :
    ctx.Extends ((ctx.getOrCreateBlock a).2.getOrCreateBlock b).2 ∧
      Stand ((ctx.getOrCreateBlock a).2.getOrCreateBlock b).2
        [(ctx.getOrCreateBlock a).1, ((ctx.getOrCreateBlock a).2.getOrCreateBlock b).1] [a, b] := by
  have hb := (ctx.getOrCreateBlock a).2.getOrCreateBlock_extends b
  refine ⟨(ctx.getOrCreateBlock_extends a).trans hb, .cons ?_ (.cons ?_ .nil)⟩
  · exact hb.mem (ctx.mem_getOrCreateBlock a)
  · exact LiftContext.mem_getOrCreateBlock _ b

/-- The targets of a terminator stand for the addresses that the block goes on to. -/
theorem terminate_spec (lifter : X86Lifter) (addr : Word) (ctx : LiftContext) (ending : BlockEnd) :
    ctx.Extends (terminate (μ := μ) addr ctx ending).2.2 ∧
      Stand (terminate (μ := μ) addr ctx ending).2.2
        (followed lifter (terminate (μ := μ) addr ctx ending).2.1)
        (ending.addresses lifter addr) := by
  have hone (target : Word) := ctx.getOrCreateBlock_extends target
  have hmem (target : Word) := ctx.mem_getOrCreateBlock target
  cases ending with
  | frontier pc =>
    by_cases hpc : pc = addr
    · simp only [terminate, BlockEnd.addresses, if_pos hpc]
      exact ⟨.refl ctx, .nil⟩
    · simp only [terminate, BlockEnd.addresses, if_neg hpc]
      exact ⟨hone pc, .cons (hmem pc) .nil⟩
  | branch target => exact ⟨hone target, .cons (hmem target) .nil⟩
  | condBranch cond target fallthrough pc =>
    obtain ⟨hext, hstand⟩ :=
      stand_pair { ctx with nextVreg := ctx.nextVreg + 1 } target fallthrough
    exact ⟨⟨hext.entries, hext.numbered⟩, hstand⟩
  | condBranchReg cond taken notTaken => exact stand_pair ctx taken notTaken
  | call target continuation =>
    refine ⟨hone continuation, ?_⟩
    simp only [terminate, followed, BlockEnd.addresses]
    split
    · exact .cons (hmem continuation) .nil
    · exact .nil
  | indirectBranch | indirectBranchMem | ret | trap | syscall => exact ⟨.refl ctx, .nil⟩

theorem Follows.imp {R S : BlockId → Word → Prop} {block : SmirBlock μ}
    (h : Follows d lifter mem R block) (hRS : ∀ id addr, R id addr → S id addr) :
    Follows d lifter mem S block := by
  rcases h with hempty | ⟨ending, hends, htargets⟩
  · exact .inl hempty
  · exact .inr ⟨ending, hends, htargets.imp hRS⟩

theorem liftBlock_spec {fuel : Nat} {ctx : LiftContext} {addr : Word} {lifted : LiftedBlock μ}
    (h : liftBlock d lifter mem fuel ctx addr = .ok lifted) :
    ctx.Extends lifted.ctx ∧ lifted.block.guestPc = addr ∧
      (addr, lifted.block.id) ∈ lifted.ctx.blocks.entries ∧
      ∃ ending, EndsAt d lifter mem addr ending ∧
        Stand lifted.ctx (followed lifter lifted.block.terminator)
          (ending.addresses lifter addr) := by
  obtain ⟨⟨w, ending⟩, hwalk, hrest⟩ := Result.bind_ok_iff.mp h
  obtain ⟨hext, hstand⟩ := terminate_spec (μ := μ) lifter addr
    { (ctx.getOrCreateBlock addr).2 with nextVreg := w.nextVreg } ending
  cases hrest
  have hctx : (ctx.getOrCreateBlock addr).2.Extends
      (terminate (μ := μ) addr { (ctx.getOrCreateBlock addr).2 with nextVreg := w.nextVreg }
        ending).2.2 := ⟨hext.entries, hext.numbered⟩
  refine ⟨(ctx.getOrCreateBlock_extends addr).trans hctx, rfl, ?_, ending, ?_, hstand⟩
  · exact hctx.mem (ctx.mem_getOrCreateBlock addr)
  · exact ⟨fuel, _, w, hwalk⟩

/-- What a round of the worklist does: nothing for a visited address, and otherwise a block. -/
theorem Lifting.visit_cases {fuel : Nat} {s s' : Lifting μ} {addr : Word} {rest : List Word}
    (h : s.visit d lifter mem order fuel addr rest = .ok s') :
    (addr ∈ s.visited ∧ s' = { s with worklist := rest }) ∨
      addr ∉ s.visited ∧ s.ctx.Extends s'.ctx ∧ ∃ block pushed,
        s'.visited = s.visited ++ [addr] ∧ s'.blocks = s.blocks ++ [block] ∧
        s'.worklist = pushed ++ rest ∧ block.guestPc = addr ∧
        (addr, block.id) ∈ s'.ctx.blocks.entries ∧
        Follows d lifter mem (fun id a => (a, id) ∈ s'.ctx.blocks.entries ∧
          (s'.ctx.addressOf order id = some a → a ∈ pushed)) block := by
  rw [visit] at h
  by_cases hseen : addr ∈ s.visited
  · rw [if_pos hseen] at h
    cases h
    exact .inl ⟨hseen, rfl⟩
  · rw [if_neg hseen] at h
    refine .inr ⟨hseen, ?_⟩
    by_cases hfull : s.full lifter = true
    · rw [if_pos hfull] at h
      cases h
      exact ⟨s.ctx.getOrCreateBlock_extends addr, _, [], rfl, rfl, rfl, rfl,
        s.ctx.mem_getOrCreateBlock addr, .inl ⟨rfl, rfl⟩⟩
    · rw [if_neg hfull] at h
      obtain ⟨lifted, hlift, hrest⟩ := Result.bind_ok_iff.mp h
      obtain ⟨hext, hpc, hid, ending, hends, hstand⟩ := liftBlock_spec hlift
      cases hrest
      refine ⟨hext, lifted.block, _, rfl, rfl, rfl, hpc, hid, .inr ⟨ending, ?_, ?_⟩⟩
      · rw [hpc]
        exact hends
      · rw [hpc]
        have hmem := (List.forall₂_and_left _ _).mpr ⟨fun id hid => hid, hstand⟩
        refine hmem.imp fun id a hida => ⟨hida.2, fun haddr => ?_⟩
        exact List.mem_reverse.mpr (List.mem_filterMap.mpr ⟨id, hida.1, haddr⟩)

/-- What the worklist keeps: every block stands under the number of its address, and every target
has been visited or is still to be. -/
structure Lifting.Invariant (d : Decoder μ) (lifter : X86Lifter)
    (mem : Word → Nat → Except MemoryError (List Byte)) (entry : Word) (entryId : BlockId)
    (s : Lifting μ) : Prop where
  numbered : s.ctx.blocks.Numbered blockIds
  blocks : s.blocks.map (·.guestPc) = s.visited
  visited : s.visited.Nodup
  ids : ∀ block ∈ s.blocks, (block.guestPc, block.id) ∈ s.ctx.blocks.entries
  entryId : (entry, entryId) ∈ s.ctx.blocks.entries
  entry : entry ∈ s.visited ∨ entry ∈ s.worklist
  targets : ∀ block ∈ s.blocks, Follows d lifter mem
    (fun id addr => (addr, id) ∈ s.ctx.blocks.entries ∧ (addr ∈ s.visited ∨ addr ∈ s.worklist))
    block

namespace Lifting

variable {entry addr : Word} {entryId : BlockId} {s s' : Lifting μ} {rest : List Word} {fuel : Nat}

theorem Invariant.skip (h : s.Invariant d lifter mem entry entryId)
    (hwork : s.worklist = addr :: rest) (hseen : addr ∈ s.visited) :
    { s with worklist := rest }.Invariant d lifter mem entry entryId := by
  have hpop (a : Word) (ha : a ∈ s.visited ∨ a ∈ s.worklist) : a ∈ s.visited ∨ a ∈ rest := by
    rcases ha with ha | ha
    · exact .inl ha
    · rw [hwork] at ha
      rcases List.mem_cons.mp ha with rfl | ha
      · exact .inl hseen
      · exact .inr ha
  refine ⟨h.numbered, h.blocks, h.visited, h.ids, h.entryId, hpop _ h.entry, ?_⟩
  exact fun block hblock => (h.targets block hblock).imp fun id a ha => ⟨ha.1, hpop a ha.2⟩

theorem Invariant.visit (h : s.Invariant d lifter mem entry entryId)
    (hwork : s.worklist = addr :: rest)
    (hvisit : s.visit d lifter mem order fuel addr rest = .ok s')
    (hsize : s'.ctx.blocks.entries.length ≤ blockIds) :
    s'.Invariant d lifter mem entry entryId := by
  rcases visit_cases hvisit with ⟨hseen, rfl⟩ | ⟨hnew, hext, block, pushed, hlifted⟩
  · exact h.skip hwork hseen
  · obtain ⟨hvisited, hblocks, hworklist, hpc, hid, hfollows⟩ := hlifted
    have hnum := hext.numbered h.numbered
    have hmove (a : Word) (ha : a ∈ s.visited ∨ a ∈ s.worklist) :
        a ∈ s'.visited ∨ a ∈ s'.worklist := by
      rw [hvisited, hworklist]
      rcases ha with ha | ha
      · exact .inl (List.mem_append_left _ ha)
      · rw [hwork] at ha
        rcases List.mem_cons.mp ha with rfl | ha
        · exact .inl (List.mem_append_right _ (List.mem_singleton_self _))
        · exact .inr (List.mem_append_right _ ha)
    refine ⟨hnum, ?_, ?_, ?_, hext.mem h.entryId, hmove _ h.entry, ?_⟩
    · rw [hblocks, hvisited, List.map_append, h.blocks, List.map_singleton, hpc]
    · rw [hvisited, List.nodup_append]
      refine ⟨h.visited, List.nodup_singleton _, fun a ha b hb hab => hnew ?_⟩
      obtain rfl : b = addr := List.mem_singleton.mp hb
      exact hab ▸ ha
    · intro b hb
      rw [hblocks] at hb
      rcases List.mem_append.mp hb with hb | hb
      · exact hext.mem (h.ids b hb)
      · obtain rfl := List.mem_singleton.mp hb
        rw [hpc]
        exact hid
    · intro b hb
      rw [hblocks] at hb
      rcases List.mem_append.mp hb with hb | hb
      · exact (h.targets b hb).imp fun id a ha => ⟨hext.mem ha.1, hmove a ha.2⟩
      · obtain rfl := List.mem_singleton.mp hb
        refine hfollows.imp fun id a ha => ⟨ha.1, .inr ?_⟩
        rw [hworklist]
        exact List.mem_append_left _
          (ha.2 (LiftContext.addressOf_eq_some order hnum hsize ha.1))

theorem visit_extends (hvisit : s.visit d lifter mem order fuel addr rest = .ok s') :
    s.ctx.Extends s'.ctx := by
  obtain ⟨-, rfl⟩ | ⟨-, hext, -⟩ := visit_cases hvisit
  · exact .refl s.ctx
  · exact hext

theorem run_extends {n : Nat} (hrun : s.run d lifter mem order fuel n = .ok s') :
    s.ctx.Extends s'.ctx := by
  induction n generalizing s with
  | zero => cases hrun
  | succ n ih =>
    rw [run] at hrun
    cases hwork : s.worklist with
    | nil =>
      rw [hwork] at hrun
      cases hrun
      exact .refl _
    | cons addr rest =>
      rw [hwork] at hrun
      obtain ⟨s₁, hvisit, hrest⟩ := Result.bind_ok_iff.mp hrun
      exact (visit_extends hvisit).trans (ih hrest)

/-- A run that ends without the numbers coming round keeps the invariant and empties the
worklist. -/
theorem Invariant.run {n : Nat} (h : s.Invariant d lifter mem entry entryId)
    (hrun : s.run d lifter mem order fuel n = .ok s')
    (hsize : s'.ctx.blocks.entries.length ≤ blockIds) :
    s'.Invariant d lifter mem entry entryId ∧ s'.worklist = [] := by
  induction n generalizing s with
  | zero => cases hrun
  | succ n ih =>
    rw [Lifting.run] at hrun
    cases hwork : s.worklist with
    | nil =>
      rw [hwork] at hrun
      obtain rfl := Except.ok.inj hrun
      exact ⟨h, hwork⟩
    | cons addr rest =>
      rw [hwork] at hrun
      obtain ⟨s₁, hvisit, hrest⟩ := Result.bind_ok_iff.mp hrun
      have hle := (run_extends hrest).entries.length_le
      exact ih (h.visit hwork hvisit (Nat.le_trans hle hsize)) hrest

/-- With nothing left to visit, the blocks are closed. -/
theorem Invariant.closed {func : SmirFunction μ} (h : s.Invariant d lifter mem entry entryId)
    (hwork : s.worklist = []) (hsize : s.ctx.blocks.entries.length ≤ blockIds)
    (hblocks : func.blocks = s.blocks) (hentry : func.entry = entryId) :
    ClosedCfg d lifter mem entry func := by
  have haddresses : (s.blocks.map (·.guestPc)).Nodup := h.blocks ▸ h.visited
  -- A visited address has a block, and its number is the one of the address.
  have hfind (id : BlockId) (addr : Word) (hid : (addr, id) ∈ s.ctx.blocks.entries)
      (ha : addr ∈ s.visited ∨ addr ∈ s.worklist) :
      ∃ block ∈ s.blocks, block.id = id ∧ block.guestPc = addr := by
    rw [hwork, ← h.blocks] at ha
    obtain ⟨block, hblock, rfl⟩ := List.mem_map.mp (ha.resolve_right List.not_mem_nil)
    exact ⟨block, hblock, h.numbered.id_unique (h.ids block hblock) hid, rfl⟩
  constructor
  · rw [SmirFunction.DistinctIds, hblocks]
    refine List.Nodup.map_on (fun a ha b hb hab => ?_) haddresses.of_map
    refine List.inj_on_of_nodup_map haddresses ha hb ?_
    exact h.numbered.key_unique hsize (h.ids a ha) (hab ▸ h.ids b hb)
  · rw [hblocks]
    exact haddresses
  · rw [hblocks, hentry]
    exact hfind entryId entry h.entryId h.entry
  · rw [hblocks]
    intro block hblock
    exact (h.targets block hblock).imp fun id addr ha => hfind id addr ha.1 ha.2

end Lifting

/-- A lifted function is a closed control-flow graph if the block numbers have not come round. -/
theorem liftFunction_closed (order : IterationOrder) (fuel : Nat) {ctx ctx' : LiftContext}
    {entry : Word} {func : SmirFunction μ} (hnum : ctx.blocks.Numbered blockIds)
    (h : liftFunction d lifter mem order fuel ctx entry = .ok (func, ctx'))
    (hsize : ctx'.blocks.entries.length ≤ blockIds) : ClosedCfg d lifter mem entry func := by
  obtain ⟨s, hrun, hrest⟩ := Result.bind_ok_iff.mp h
  cases hrest
  have hinit : Lifting.Invariant d lifter mem entry (ctx.getOrCreateBlock entry).1
      { ctx := (ctx.getOrCreateBlock entry).2, worklist := [entry] } := by
    refine ⟨(ctx.getOrCreateBlock_extends entry).numbered hnum, rfl, List.nodup_nil, ?_,
      ctx.mem_getOrCreateBlock entry, .inr (List.mem_singleton_self entry), ?_⟩
    · exact fun block hblock => absurd hblock List.not_mem_nil
    · exact fun block hblock => absurd hblock List.not_mem_nil
  obtain ⟨hinv, hwork⟩ := hinit.run hrun hsize
  exact hinv.closed hwork hsize rfl rfl

end Closed

/-- `lift_insn_inner` on code made of `JMP rel8`. -/
def jmpDecoder : Decoder FlatMemory where
  liftInsnInner pc bytes nextVreg :=
    match bytes with
    | opcode :: rel :: _ =>
      if opcode = 0xEB then
        (nextVreg, .ok
          { ops := [], bytesConsumed := 2, controlFlow := .branch (pc + 2 + rel.signExtend 64) })
      else (nextVreg, .error (.unsupported pc "not a short jump"))
    | _ => (nextVreg, .error (.incomplete pc bytes.length 2))
  transferTarget _ := none

/-- The order of insertion. -/
def insertionOrder : IterationOrder := ⟨id, fun entries => List.Perm.refl entries⟩

/-- Memory filled with one short jump. -/
def jumps (rel : Byte) (addr : Word) (n : Nat) : Except MemoryError (List Byte) :=
  .ok ((List.range n).map fun i =>
    if (addr + BitVec.ofNat 64 i).getLsbD 0 then rel else 0xEB)

/-- A jump to 2, and one from there back to 0. -/
def pingPong (addr : Word) (n : Nat) : Except MemoryError (List Byte) :=
  .ok ((List.range n).map fun i =>
    [0xEB, 0, 0xEB, 0xFC].getD ((addr.toNat + i) % 4) 0)

theorem liftFunction_closed_pingPong :
    ∃ func ctx, liftFunction jmpDecoder {} pingPong insertionOrder 4 {} 0 = .ok (func, ctx) ∧
      func.blocks.map (fun block => (block.id, block.guestPc, block.terminator)) =
        [(0, 0, .branch 1), (1, 2, .branch 0)] ∧
      ClosedCfg jmpDecoder {} pingPong 0 func := by
  have hnew : ({} : LiftContext).blocks.Numbered blockIds := IdTable.numbered_empty blockIds
  refine ⟨_, _, rfl, rfl, liftFunction_closed insertionOrder 4 hnew rfl ?_⟩
  decide

/-- The address of jump number `j`. -/
def jumpAt (j : Nat) : Word := BitVec.ofNat 64 (2 * j)

theorem jumpAt_inj {i j : Nat} (hi : i < 2 ^ 63) (hj : j < 2 ^ 63) (h : jumpAt i = jumpAt j) :
    i = j := by
  have hnat := congrArg BitVec.toNat h
  rw [jumpAt, jumpAt, BitVec.toNat_ofNat, BitVec.toNat_ofNat, Nat.mod_eq_of_lt (by omega),
    Nat.mod_eq_of_lt (by omega)] at hnat
  omega

/-- The block of jump number `j`. -/
def jumpBlock (j : Nat) : SmirBlock FlatMemory :=
  { id := j % blockIds, guestPc := jumpAt j, terminator := .branch ((j + 1) % blockIds) }

/-- The first `i` jumps have been lifted and `next` comes next. -/
def chain (i : Nat) (next : Word) : Lifting FlatMemory :=
  { ctx :=
      { blocks :=
          { entries := (List.range (i + 1)).map fun j => (jumpAt j, j % blockIds)
            next := (i + 1) % blockIds } }
    worklist := [next]
    visited := (List.range i).map jumpAt
    blocks := (List.range i).map jumpBlock
    bytes := (List.range i).map fun j => ((j % blockIds, jumpAt j), [0xEB, 0]) }

variable {i : Nat}

theorem mem_visited_chain {next addr : Word} :
    addr ∈ (chain i next).visited ↔ ∃ j < i, addr = jumpAt j := by
  simp only [chain, List.mem_map, List.mem_range, eq_comm]

theorem mem_blocks_chain {next : Word} {block : SmirBlock FlatMemory} :
    block ∈ (chain i next).blocks ↔ ∃ j < i, block = jumpBlock j := by
  simp only [chain, List.mem_map, List.mem_range, eq_comm]

theorem chain_numbered (hi : i ≤ blockIds) (next : Word) :
    (chain i next).ctx.blocks.Numbered blockIds := by
  have hbound : blockIds + 1 < 2 ^ 63 := by decide
  constructor
  · simp only [chain, List.map_map]
    refine List.Nodup.map_on (fun a ha b hb hab => ?_) List.nodup_range
    have ha := List.mem_range.mp ha
    have hb := List.mem_range.mp hb
    exact jumpAt_inj (by omega) (by omega) hab
  · simp only [chain, List.map_map, List.length_map, List.length_range]
    rfl
  · simp only [chain, List.length_map, List.length_range]

theorem jumps_jumpAt (j : Nat) :
    ∃ rest, jumps 0 (jumpAt j) 15 = .ok (0xEB :: 0 :: rest) ∧ rest.length = 13 := by
  have heven : (jumpAt j).getLsbD 0 = false := by
    rw [jumpAt, BitVec.getLsbD_ofNat]
    simp
  have hodd : (jumpAt j + 1).getLsbD 0 = true := by
    rw [BitVec.getLsbD_add (by decide), heven]
    simp
  have hrange : List.range 15 = 0 :: 1 :: (List.range 13).map (· + 2) := by decide
  refine ⟨((List.range 13).map (· + 2)).map fun i =>
    if (jumpAt j + BitVec.ofNat 64 i).getLsbD 0 then 0 else 0xEB, ?_, by simp⟩
  have hzero : jumpAt j + BitVec.ofNat 64 0 = jumpAt j := BitVec.add_zero _
  rw [jumps, hrange, List.map_cons, List.map_cons, hzero, heven, if_neg Bool.false_ne_true,
    show BitVec.ofNat 64 1 = (1 : Word) from rfl, hodd, if_pos rfl]

theorem liftInsns_jump (n j v : Nat) :
    ∃ w, liftInsns jmpDecoder {} (jumps 0) (n + 1) { pc := jumpAt j, nextVreg := v } =
        .ok (w, .branch (jumpAt (j + 1))) ∧
      w.nextVreg = v ∧ w.ops = [] ∧ w.bytes = [(jumpAt j, [0xEB, 0])] := by
  obtain ⟨rest, hread, hlength⟩ := jumps_jumpAt j
  have htarget : jumpAt j + 2 + BitVec.signExtend 64 (0 : Byte) = jumpAt (j + 1) := by
    have hrel : BitVec.signExtend 64 (0 : Byte) = 0 := by decide
    rw [hrel, jumpAt, jumpAt, Nat.mul_add, BitVec.ofNat_add]
    exact BitVec.add_zero _
  have hshort : ¬ 15 < ((0xEB : Byte) :: 0 :: rest).length := by
    simp only [List.length_cons, hlength]
    omega
  rw [liftInsns, hread]
  simp only [if_neg hshort, jmpDecoder, htarget]
  exact ⟨_, rfl, rfl, rfl, rfl⟩

theorem liftBlock_jump (hi : i < blockIds) (n : Nat) (next next' : Word) :
    liftBlock jmpDecoder {} (jumps 0) (n + 1) (chain i next).ctx (jumpAt i) = .ok
      { block := jumpBlock i
        bytes := [(jumpAt i, [0xEB, 0])]
        ctx := (chain (i + 1) next').ctx } := by
  have hbound : blockIds + 1 < 2 ^ 63 := by decide
  have hown : (chain i next).ctx.blocks.intern blockIds (jumpAt i) =
      (i % blockIds, (chain i next).ctx.blocks) := by
    have hmem : (jumpAt i, i % blockIds) ∈ (chain i next).ctx.blocks.entries :=
      List.mem_map.mpr ⟨i, List.self_mem_range_succ, rfl⟩
    exact (chain_numbered (Nat.le_of_lt hi) next).intern_of_mem hmem
  have hnext : (chain i next).ctx.blocks.intern blockIds (jumpAt (i + 1)) =
      ((i + 1) % blockIds, (chain (i + 1) next').ctx.blocks) := by
    have hfresh : jumpAt (i + 1) ∉ (chain i next).ctx.blocks.entries.map Prod.fst := by
      intro hmem
      simp only [chain, List.map_map, List.mem_map, List.mem_range] at hmem
      obtain ⟨j, hj, hij⟩ := hmem
      have := jumpAt_inj (by omega) (by omega) hij
      omega
    rw [IdTable.intern_of_fresh _ hfresh]
    simp only [chain, List.range_succ (n := i + 1), List.map_append, List.map_cons,
      List.map_nil, Nat.mod_add_mod]
  obtain ⟨w, hwalk, hvreg, hops, hbytes⟩ := liftInsns_jump n i 0
  refine Result.bind_ok_iff.mpr ⟨(w, .branch (jumpAt (i + 1))), ?_, ?_⟩
  · exact hwalk
  · dsimp only [terminate, LiftContext.getOrCreateBlock]
    rw [hown, hnext, hvreg, hops, hbytes]
    rfl

/-- The address found for the number of the next jump: the last number is followed by zero. -/
def found (i : Nat) : Word := if i + 1 = blockIds then jumpAt 0 else jumpAt (i + 1)

theorem addressOf_chain (hi : i < blockIds) (next : Word) :
    (chain (i + 1) next).ctx.addressOf insertionOrder ((i + 1) % blockIds) = some (found i) := by
  rw [found]
  by_cases hlast : i + 1 = blockIds
  · rw [if_pos hlast, hlast, Nat.mod_self]
    simp only [LiftContext.addressOf, insertionOrder, chain, id, List.range_succ_eq_map,
      List.map_cons]
    rw [List.find?_cons_of_pos]
    · rfl
    · rfl
  · rw [if_neg hlast]
    have hmem : (jumpAt (i + 1), (i + 1) % blockIds) ∈
        (chain (i + 1) next).ctx.blocks.entries :=
      List.mem_map.mpr ⟨i + 1, List.self_mem_range_succ, rfl⟩
    refine LiftContext.addressOf_eq_some insertionOrder (chain_numbered hi next) ?_ hmem
    simp only [chain, List.length_map, List.length_range]
    omega

theorem visit_chain (hi : i < blockIds) (n : Nat) :
    (chain i (jumpAt i)).visit jmpDecoder {} (jumps 0) insertionOrder (n + 1) (jumpAt i) [] =
      .ok (chain (i + 1) (found i)) := by
  have hbound : blockIds + 1 < 2 ^ 63 := by decide
  have hnew : jumpAt i ∉ (chain i (jumpAt i)).visited := by
    intro hmem
    obtain ⟨j, hj, hij⟩ := mem_visited_chain.mp hmem
    have := jumpAt_inj (by omega) (by omega) hij
    omega
  rw [Lifting.visit, if_neg hnew, if_neg (by simp [Lifting.full])]
  refine Result.bind_ok_iff.mpr ⟨_, liftBlock_jump hi n _ (found i), ?_⟩
  have hfollowed : followed {} (jumpBlock i).terminator = [(i + 1) % blockIds] := rfl
  have haddr := addressOf_chain hi (found i)
  simp only [hfollowed, List.filterMap_cons, List.filterMap_nil, haddr]
  simp only [chain, List.range_succ (n := i), List.map_append]
  rfl

/-- The jumps are lifted one after the other, up to the last number. -/
theorem run_chain (hi : i < blockIds) (n k : Nat) :
    (chain 0 (jumpAt 0)).run jmpDecoder {} (jumps 0) insertionOrder (n + 1) (i + k) =
      (chain i (jumpAt i)).run jmpDecoder {} (jumps 0) insertionOrder (n + 1) k := by
  induction i generalizing k with
  | zero => rw [Nat.zero_add]
  | succ i ih =>
    have hfound : found i = jumpAt (i + 1) := if_neg (by omega)
    have hsucc : i + 1 + k = i + (k + 1) := by omega
    rw [hsucc, ih (by omega), ← hfound]
    exact congrArg (· >>= _) (visit_chain (by omega) n)

theorem blocks_worklist (s : Lifting FlatMemory) (worklist : List Word) :
    { s with worklist }.blocks = s.blocks := rfl

theorem run_chain_end :
    ∃ s, (chain 0 (jumpAt 0)).run jmpDecoder {} (jumps 0) insertionOrder (blockIds + 2)
        (blockIds + 2) = .ok s ∧ s.blocks = (chain blockIds (jumpAt 0)).blocks := by
  have hpos : 0 < blockIds := by decide
  obtain ⟨last, hlast⟩ : ∃ last, blockIds = last + 1 := ⟨blockIds - 1, by omega⟩
  have hfound : found last = jumpAt 0 := if_pos hlast.symm
  have hrounds : blockIds + 2 = last + 3 := by omega
  have hchain := run_chain (i := last) (by omega) (blockIds + 1) 3
  rw [← hrounds] at hchain
  have hvisit := visit_chain (i := last) (by omega) (blockIds + 1)
  rw [hfound, ← hlast] at hvisit
  have hvisited : jumpAt 0 ∈ (chain blockIds (jumpAt 0)).visited :=
    mem_visited_chain.mpr ⟨0, hpos, rfl⟩
  have hskip : (chain blockIds (jumpAt 0)).visit jmpDecoder {} (jumps 0) insertionOrder
      (blockIds + 2) (jumpAt 0) [] = .ok { chain blockIds (jumpAt 0) with worklist := [] } := by
    rw [Lifting.visit, if_pos hvisited]
  have hend : (chain blockIds (jumpAt 0)).run jmpDecoder {} (jumps 0) insertionOrder
      (blockIds + 2) 2 = .ok { chain blockIds (jumpAt 0) with worklist := [] } :=
    Result.bind_ok_iff.mpr ⟨_, hskip, rfl⟩
  exact ⟨_, hchain.trans (Result.bind_ok_iff.mpr ⟨_, hvisit, hend⟩), blocks_worklist _ _⟩

/-- The jump of the last block goes to an address that has no block. -/
theorem chain_not_closed {func : SmirFunction FlatMemory}
    (hblocks : func.blocks = (chain blockIds (jumpAt 0)).blocks) :
    ¬ ClosedCfg jmpDecoder {} (jumps 0) (jumpAt 0) func := by
  intro hclosed
  have hpos : 0 < blockIds := by decide
  have hbound : blockIds + 1 < 2 ^ 63 := by decide
  obtain ⟨last, hlast⟩ : ∃ last, blockIds = last + 1 := ⟨blockIds - 1, by omega⟩
  have hmem : jumpBlock last ∈ func.blocks := by
    rw [hblocks]
    exact mem_blocks_chain.mpr ⟨last, by omega, rfl⟩
  rcases hclosed.targets _ hmem with ⟨-, hret⟩ | ⟨ending, ⟨fuel, v, w, hwalk⟩, htargets⟩
  · cases hret
  · cases fuel with
    | zero => cases hwalk
    | succ n =>
      obtain ⟨w', hjump, -⟩ := liftInsns_jump n last v
      have hending : ending = .branch (jumpAt (last + 1)) :=
        congrArg Prod.snd (Except.ok.inj (hwalk.symm.trans hjump))
      rw [hending] at htargets
      obtain ⟨⟨target, htarget, -, hpc⟩, -⟩ := List.forall₂_cons.mp htargets
      rw [hblocks] at htarget
      obtain ⟨j, hj, rfl⟩ := mem_blocks_chain.mp htarget
      have hsame := jumpAt_inj (by omega) (by omega) hpc
      omega

theorem chain_zero :
    Lifting.mk (({} : LiftContext).getOrCreateBlock (jumpAt 0)).2 [jumpAt 0] [] [] [] =
      chain 0 (jumpAt 0) := by
  simp only [LiftContext.getOrCreateBlock, IdTable.intern, List.find?_nil, chain, Nat.zero_add,
    List.range_one, List.range_zero, List.map_cons, List.map_nil, Nat.zero_mod, List.nil_append]

/-- A chain of more jumps than there are block numbers. -/
theorem jumps_not_closed :
    ∃ fuel func ctx,
      liftFunction jmpDecoder {} (jumps 0) insertionOrder fuel {} (jumpAt 0) = .ok (func, ctx) ∧
        ¬ ClosedCfg jmpDecoder {} (jumps 0) (jumpAt 0) func := by
  obtain ⟨s, hrun, hblocks⟩ := run_chain_end
  rw [← chain_zero] at hrun
  exact ⟨blockIds + 2, _, _, Result.bind_ok_iff.mpr ⟨s, hrun, rfl⟩, chain_not_closed hblocks⟩

end Rax.Smir.Lift

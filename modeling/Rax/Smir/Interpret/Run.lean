import Rax.Smir.Function
import Rax.Smir.Interpret.Exec

/-!
# Runs of a function

`execute_block`, `execute_terminator` and `run` of `smir/interpret/execution.rs`. The blocks
of a function are added to the interpreter in order, each under its guest address. Control
goes from block to block through addresses: a branch looks the address of its target up by
id, an indirect branch or a call computes it, and the next block is the one last added under
the address.
-/

namespace Rax.Smir

variable {μ : Type}

namespace SmirFunction

/-- The address under which a block id is known. An id without a block stands for the address
of the same number. -/
def addrOf (func : SmirFunction μ) (id : BlockId) : Word :=
  ((func.blocks.reverse.find? (·.id == id)).map (·.guestPc)).getD (BitVec.ofNat 64 id)

/-- The block that is executed at an address. -/
def blockAt (func : SmirFunction μ) (pc : Word) : Option (SmirBlock μ) :=
  func.blocks.reverse.find? (·.guestPc == pc)

end SmirFunction

section Terminators

variable [SmirMemory μ] (env : Env) (functions : FunctionId → Option Word)
  (addrOf : BlockId → Word)

/-- A quad word of memory, zero if it cannot be read. -/
def loadTarget (m : Machine μ) (addr : Word) : Machine μ × Word :=
  match loadMemory m.mem addr .b8 .zero with
  | (mem, .ok value) => ({ m with mem }, value)
  | (mem, .error _) => ({ m with mem }, 0)

/-- The address that a call goes to. A runtime call has none. -/
def callAddress (m : Machine μ) : CallTarget → Option (Machine μ × Word)
  | .guestAddr addr | .guestAddrInterworking addr _ => some (m, addr)
  | .direct function => some (m, (functions function).getD 0)
  | .indirect reg => some (m, m.read env reg)
  | .indirectInterworking reg => some (m, (m.read env reg).low32 &&& ~~~1#64)
  | .indirectMem addr => some (loadTarget m (computeAddress env (m.inputs env) addr))
  | .x86IndirectMemAddr32 addr =>
    some (loadTarget m (computeAddressAt env (m.read env) m.pc true addr))
  | .runtime _ => none

/-- The return address, from the stack or from the link register. -/
def returnAddress (m : Machine μ) : Machine μ × Word :=
  match env.arch with
  | .x86 =>
    match SmirMemory.read m.mem (m.read env (.x86 .rsp)) 8 with
    | (mem, .ok bytes) => ({ m with mem }, Word.fromLeBytes bytes)
    | (mem, .error _) => ({ m with mem }, 0)
  | .aarch64 => (m, m.read env (.arch (.arm (.x 30))))
  | .hexagon => (m, m.read env (.arch (.hexagon .lr)))
  | .riscV => (m, m.read env (.arch (.riscV (.x 1))))

/-- Whether an encoding that may need APX is available. -/
def encodingEnabled (requiresApx : Bool) : Bool :=
  env.arch == .x86 && (!requiresApx || env.x86.apxEnabled)

def X86Segment.index : X86Segment → Nat
  | es => 0
  | cs => 1
  | ss => 2
  | ds => 3
  | fs => 4
  | gs => 5

def executeTrap (m : Machine μ) : TrapKind → Outcome (Machine μ) ExitReason
  | .halt => .exit .halt m
  | .breakpoint => .exit (.breakpoint m.pc) m
  | .x86Debug faultPc returnPc requiresApx =>
    encoded requiresApx faultPc (.debug returnPc)
  | .x86SoftwareInterrupt vector faultPc returnPc requiresApx =>
    encoded requiresApx faultPc (.x86SoftwareInterrupt vector.toNat faultPc returnPc)
  | .x86InterruptReturn width faultPc requiresApx =>
    encoded requiresApx faultPc (.x86InterruptReturn width faultPc)
  | .x86StringIo kind width addressWidth repeated memorySegment faultPc returnPc requiresApx =>
    encoded requiresApx faultPc (.x86StringIo
      { output := kind = .outs, width, addressWidth, repeated,
        memorySegment := memorySegment.index } faultPc returnPc)
  -- The system call itself is an operation; control stays at the program counter.
  | .systemCall => .next m
  | .undefined | .invalidOpcode | .divideByZero | .overflow | .bounds =>
    .exit (.undefined m.pc 0) m
  | .generalProtection => .exit (.generalProtection m.pc 0) m
where
  encoded (requiresApx : Bool) (faultPc : Word) (reason : ExitReason) :
      Outcome (Machine μ) ExitReason :=
    if encodingEnabled env requiresApx then .exit reason m else .exit (.undefined faultPc 0) m

/-- `execute_terminator`. -/
def executeTerminator (m : Machine μ) : Terminator → Outcome (Machine μ) ExitReason
  | .branch target => goto m (addrOf target)
  | .condBranch cond trueTarget falseTarget =>
    goto m (addrOf (if m.read env cond != 0 then trueTarget else falseTarget))
  | .switch index targets default =>
    goto m (addrOf (targets.getD (m.read env index).toNat default))
  | .indirectBranch target _ => goto m (m.read env target)
  | .indirectBranchMem addr _ =>
    let (m, value) := loadTarget m (computeAddress env (m.inputs env) addr)
    goto m value
  | .ret _ =>
    let (m, addr) := returnAddress env m
    .exit (.returnTo addr) m
  | .call target _ continuation =>
    match callAddress env functions m target with
    | some (m, addr) => goto m addr
    | none => goto m (addrOf continuation)
  | .tailCall target _ =>
    match callAddress env functions m target with
    | some (m, addr) => goto m addr
    | none => goto m 0
  | .trap kind => executeTrap env m kind
  | .unreachable => .exit (.undefined m.pc 0) m
where
  goto (m : Machine μ) (addr : Word) : Outcome (Machine μ) ExitReason :=
    .next { m with pc := addr }

/-- `execute_block`. -/
def executeBlock (block : SmirBlock μ) (m : Machine μ) : Outcome (Machine μ) ExitReason :=
  match runOps env block.ops m with
  | .next m => executeTerminator env functions addrOf m block.terminator
  | .exit reason m => .exit reason m

variable {env functions}

/-- A terminator looks up the addresses of its successors only. -/
theorem executeTerminator_congr {addrOf addrOf' : BlockId → Word} {m : Machine μ}
    {term : Terminator} (h : ∀ id ∈ term.successors, addrOf id = addrOf' id) :
    executeTerminator env functions addrOf m term =
      executeTerminator env functions addrOf' m term := by
  cases term with
  | branch target => simp [executeTerminator, h target (List.mem_singleton_self _)]
  | condBranch cond trueTarget falseTarget =>
    have hmem : (if m.read env cond != 0 then trueTarget else falseTarget) ∈
        [trueTarget, falseTarget] := by split <;> simp
    exact congrArg (executeTerminator.goto m) (h _ hmem)
  | switch index targets default =>
    have hmem : targets.getD (m.read env index).toNat default ∈ targets ++ [default] := by
      rw [List.getD_eq_getElem?_getD]
      cases hget : targets[(m.read env index).toNat]? with
      | none => simp
      | some target => simp [List.mem_of_getElem? hget]
    exact congrArg (executeTerminator.goto m) (h _ hmem)
  | call target args continuation =>
    simp [executeTerminator, h continuation (List.mem_singleton_self _)]
  | _ => rfl

theorem executeTerminator_condBranch_same {addrOf : BlockId → Word} {m : Machine μ} {cond : VReg}
    {target : BlockId} : executeTerminator env functions addrOf m (.condBranch cond target target) =
      executeTerminator env functions addrOf m (.branch target) := by
  simp [executeTerminator]

end Terminators

/-- What a run is given besides its function and its state: the instruction count to stop at (the
count at its start and `max_insns_per_run`, in 64 bits), the breakpoints, and whether to stop after
each block. -/
structure RunConfig where
  env : Env
  functions : FunctionId → Option Word := fun _ => none
  limit : Word := 10000
  breakpoint : Word → Bool := fun _ => false
  singleStep : Bool := false

variable [SmirMemory μ]

/-- Execute a block of a function. -/
def SmirFunction.execute (func : SmirFunction μ) (config : RunConfig) (block : SmirBlock μ)
    (m : Machine μ) : Outcome (Machine μ) ExitReason :=
  executeBlock config.env config.functions func.addrOf block m

/-- `run`, for at most `n` blocks, at the instruction count `count`, which wraps: the exit and the
state, or nothing when control is still inside. -/
def run (config : RunConfig) (func : SmirFunction μ) :
    Nat → Word → Machine μ → Option (ExitReason × Machine μ)
  | 0, _, _ => none
  | n + 1, count, m =>
    if config.limit ≤ count then some (.insnLimit, m)
    else if config.breakpoint m.pc then some (.breakpoint m.pc, m)
    else
      match func.blockAt m.pc with
      | none => some (.blockNotFound m.pc, m)
      | some block =>
        match func.execute config block m with
        | .exit reason m => some (reason, m)
        | .next m =>
          if config.singleStep then some (.singleStep, m)
          else run config func n (count + BitVec.ofNat 64 block.ops.length) m

/-- The blocks that such a run executes. -/
def executed (config : RunConfig) (func : SmirFunction μ) :
    Nat → Word → Machine μ → List (SmirBlock μ)
  | 0, _, _ => []
  | n + 1, count, m =>
    if config.limit ≤ count then []
    else if config.breakpoint m.pc then []
    else
      match func.blockAt m.pc with
      | none => []
      | some block =>
        block ::
          match func.execute config block m with
          | .exit _ _ => []
          | .next m =>
            if config.singleStep then []
            else executed config func n (count + BitVec.ofNat 64 block.ops.length) m

/-- If a function has the same block, up to a change that no execution notices, for every
block that a run executes, and no block where the run finds none, then its run is the same. -/
theorem run_congr {config : RunConfig} {func func' : SmirFunction μ}
    (change : SmirBlock μ → SmirBlock μ) (Good : SmirBlock μ → Prop)
    (hops : ∀ block, (change block).ops = block.ops)
    (hnone : ∀ pc, func.blockAt pc = none → func'.blockAt pc = none)
    (hsome : ∀ pc block, func.blockAt pc = some block → Good block →
      func'.blockAt pc = some (change block) ∧
        ∀ m, func'.execute config (change block) m = func.execute config block m)
    (n : Nat) (count : Word) (m : Machine μ)
    (hgood : ∀ block ∈ executed config func n count m, Good block) :
    run config func' n count m = run config func n count m := by
  induction n generalizing count m with
  | zero => rfl
  | succ n ih =>
    rw [executed] at hgood
    rw [run, run]
    by_cases hlimit : config.limit ≤ count
    · rw [if_pos hlimit, if_pos hlimit]
    rw [if_neg hlimit] at hgood ⊢
    rw [if_neg hlimit]
    by_cases hbreak : config.breakpoint m.pc = true
    · rw [if_pos hbreak, if_pos hbreak]
    rw [if_neg hbreak] at hgood ⊢
    rw [if_neg hbreak]
    cases hblock : func.blockAt m.pc with
    | none => rw [hnone _ hblock]
    | some block =>
      rw [hblock] at hgood
      obtain ⟨hfirst, hrest⟩ := List.forall_mem_cons.mp hgood
      obtain ⟨hblock', hexecute⟩ := hsome _ _ hblock hfirst
      simp only [hblock', hexecute, hops]
      cases hnext : func.execute config block m with
      | exit reason m' => rfl
      | next m' =>
        by_cases hsingle : config.singleStep = true
        · simp [hsingle]
        · simp only [hnext, hsingle] at hrest ⊢
          exact ih _ _ hrest

/-- A block that branches to itself. -/
def selfLoop (ops : List (SmirOp FlatMemory)) : SmirFunction FlatMemory where
  entry := 0
  blocks := [{ id := 0, guestPc := 0, ops, terminator := .branch 0 }]

/-- A count below the limit does not wrap in a block that the limit leaves room for. -/
theorem toNat_count_add {limit count : Word} {k : Nat} (hcount : ¬ limit ≤ count)
    (hk : limit.toNat + k ≤ 2 ^ 64) : (count + BitVec.ofNat 64 k).toNat = count.toNat + k := by
  rw [BitVec.le_def] at hcount
  simp only [BitVec.toNat_add, BitVec.toNat_ofNat]
  omega

/-- Where every block has an operation and none is long enough to take the counter from below the
limit past 64 bits, a run ends: what is left of the limit bounds the blocks that it executes. A
block without operations is not counted, and a counter that wraps may miss the limit. -/
theorem run_ends {config : RunConfig} {func : SmirFunction μ}
    (hops : ∀ block ∈ func.blocks, block.ops ≠ [])
    (hroom : ∀ block ∈ func.blocks, config.limit.toNat + block.ops.length ≤ 2 ^ 64)
    {n : Nat} {count : Word} (hn : config.limit.toNat ≤ count.toNat + n) (m : Machine μ) :
    ∃ result, run config func (n + 1) count m = some result := by
  induction n generalizing count m with
  | zero => exact ⟨_, if_pos hn⟩
  | succ n ih =>
    rw [run]
    by_cases hlimit : config.limit ≤ count
    · exact ⟨_, if_pos hlimit⟩
    rw [if_neg hlimit]
    split
    · exact ⟨_, rfl⟩
    cases hblock : func.blockAt m.pc with
    | none => exact ⟨_, rfl⟩
    | some block =>
      have hmem := List.mem_reverse.mp (List.mem_of_find?_eq_some hblock)
      have hpos := List.length_pos_iff.mpr (hops block hmem)
      dsimp only
      cases func.execute config block m with
      | exit reason m' => exact ⟨_, rfl⟩
      | next m' =>
        dsimp only
        split
        · exact ⟨_, rfl⟩
        · refine ih ?_ m'
          rw [toNat_count_add hlimit (hroom block hmem)]
          omega

theorem selfLoop_ends : ∃ result, run { env := ⟨.x86, .x86_64, {}⟩ }
    (selfLoop [⟨0, .not .rax .rax .w64, false⟩]) 10001 0 Machine.blank = some result :=
  run_ends (by simp [selfLoop]) (by simp [selfLoop]) (le_refl 10000) _

-- Without room the counter steps over the limit, here from 2^64 - 2 to 0.
example : (run { env := ⟨.x86, .x86_64, {}⟩, limit := -1 } (selfLoop
    [⟨0, .not .rax .rax .w64, false⟩, ⟨0, .not .rax .rax .w64, false⟩]) 2 (-2)
      Machine.blank).isNone := by
  decide

-- A block without operations runs on under every limit.
example : (run { env := ⟨.x86, .x86_64, {}⟩, limit := 1 } (selfLoop []) 5 0
    Machine.blank).isNone := by
  decide

end Rax.Smir

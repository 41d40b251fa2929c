import Rax.Smir.Interpret.Eval

/-!
# Execution of operations

One operation of `execute_block`: evaluate it, commit its effect, and leave the block on a
memory error or a requested exit.
-/

namespace Rax.Smir

variable {μ : Type} [SmirMemory μ]

/-- Operations for which an error without an access direction is reported as a write. -/
def OpKind.writesMemory : OpKind μ → Bool
  | .store .. | .predStore .. | .storePair .. => true
  | .other o => o.writesMemory
  | _ => false

/-- The exit reported for an operation that did not complete. -/
def Fault.exitReason (pc : Word) (writes : Bool) : Fault → ExitReason
  | .panic => .panic
  | .memory (.pageFault addr write _) | .memory (.accessViolation addr write) =>
    .memoryFault addr write
  | .memory (.alignment addr _) | .memory (.mmio addr _) | .memory (.outOfBounds addr) =>
    .memoryFault addr writes
  | .memory .exclusiveFailed => .memoryFault pc writes

/-- The outcome of an evaluated operation, with a given way of committing its effect. -/
def Evaluated.finish (out : Evaluated μ) (pc : Word) (writes : Bool) (m : Machine μ)
    (commit : μ → Effect → Machine μ) : Outcome (Machine μ) ExitReason :=
  match out.2 with
  | .error e => .exit (e.exitReason pc writes) { m with mem := out.1 }
  | .ok eff =>
    match eff.exit with
    | none => .next (commit out.1 eff)
    | some e => .exit e (commit out.1 eff)

/-- Execute one operation. -/
def exec (env : Env) (op : SmirOp μ) (m : Machine μ) : Outcome (Machine μ) ExitReason :=
  (eval env op (m.inputs env)).finish m.pc op.kind.writesMemory m (m.commit env)

section State

variable {env : Env} {op : SmirOp μ} {m : Machine μ}

theorem exec_state_of_ok {eff : Effect} (h : (eval env op (m.inputs env)).2 = .ok eff) :
    (exec env op m).state = m.commit env (eval env op (m.inputs env)).1 eff := by
  simp only [exec, Evaluated.finish, h]
  cases eff.exit <;> rfl

theorem exec_state_of_error {e : Fault} (h : (eval env op (m.inputs env)).2 = .error e) :
    (exec env op m).state = { m with mem := (eval env op (m.inputs env)).1 } := by
  rw [exec, Evaluated.finish, h]
  rfl

end State

/-- Machines that differ at most in bits that no flag of a pending record depends on. -/
structure Machine.Same (m n : Machine μ) : Prop where
  regs : m.regs = n.regs
  mem : m.mem = n.mem
  pc : m.pc = n.pc
  flags : m.flags.Same n.flags

omit [SmirMemory μ] in
theorem Machine.Same.refl (m : Machine μ) : m.Same m := ⟨rfl, rfl, rfl, .refl m.flags⟩

omit [SmirMemory μ] in
theorem Machine.Same.trans (l m n : Machine μ) (h : l.Same m) (h' : m.Same n) : l.Same n :=
  ⟨h.regs.trans h'.regs, h.mem.trans h'.mem, h.pc.trans h'.pc,
    h.flags.image.trans h'.flags.image, h.flags.settled.trans h'.flags.settled⟩

theorem exec_same {env : Env} (op : SmirOp μ) {m n : Machine μ} (h : m.Same n) :
    Outcome.Rel Machine.Same Machine.Same (exec env op m) (exec env op n) := by
  obtain ⟨hregs, hmem, hpc, hflags⟩ := h
  have hread : m.read env = n.read env := by
    funext r
    rw [Machine.read, Machine.read, hregs]
  have hinputs : m.inputs env = n.inputs env := by
    simp [Machine.inputs, hread, hmem, hpc, hflags.image]
  rw [exec, exec, hinputs, hpc]
  cases hev : (eval env op (n.inputs env)).2 with
  | error e =>
    simp only [Evaluated.finish, hev]
    exact .exit ⟨hregs, rfl, hpc, hflags⟩
  | ok eff =>
    have hcommit (mem : μ) : (m.commit env mem eff).Same (n.commit env mem eff) :=
      ⟨congrArg (applyWrites env.arch eff.writes) hregs, rfl, hpc, eff.flags.apply_same hflags⟩
    simp only [Evaluated.finish, hev]
    cases eff.exit with
    | none => exact .next (hcommit _)
    | some e => exact .exit (hcommit _)

/-- Execute the operations of a block. -/
def runOps (env : Env) (ops : List (SmirOp μ)) (m : Machine μ) :
    Outcome (Machine μ) ExitReason :=
  runSeq (exec env) ops m

end Rax.Smir

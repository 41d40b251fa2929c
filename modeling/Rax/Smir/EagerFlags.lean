import Rax.Smir.FlagFootprint

/-!
# Lazy flags against eager flags

The eager machine runs the same operations but keeps no pending record: each operation
stores at once the flags it is asked to update and leaves every other flag alone. The lazy
machine reads the same flags as long as no step drops a pending record that still matters
and no step writes a flag outside its request. Both can fail: `Inc` replaces the pending
record without settling it, although it produces no carry.
-/

namespace Rax.Smir

variable {μ : Type}

/-- The flags an operation is asked to update. Operations without a request field update
whatever they define. -/
def OpKind.request : OpKind μ → FlagSet
  | .arith _ _ _ _ _ flags | .neg _ _ _ flags | .incDec _ _ _ _ flags
  | .mul _ _ _ _ _ _ flags | .div _ _ _ _ _ _ flags | .logic _ _ _ _ _ flags
  | .shift _ _ _ _ _ flags | .doubleShift _ _ _ _ _ flags
  | .x86NddDoubleShift _ _ _ _ _ _ flags | .rotate _ _ _ _ _ flags
  | .armRegShift _ _ _ _ _ flags | .armDpRegShift _ _ _ _ _ _ flags
  | .rotateCarry _ _ _ _ _ flags | .scan _ _ _ _ flags | .bextr _ _ _ _ flags
  | .bzhi _ _ _ _ flags | .x86Bls _ _ _ _ flags | .x86Tbm _ _ _ _ flags
  | .x86Adx _ _ _ _ _ flags | .x86Count _ _ _ _ flags | .x86Xadd _ _ _ flags
  | .x86Cmpxchg _ _ _ flags => flags.asSet
  | .other o => o.flagsWritten
  | _ => FlagSet.allX86

/-- Store the requested flags at once. -/
def FlagAct.eager (act : FlagAct) (request : FlagSet) (s : FlagState) : FlagState :=
  { act.apply s with
    lazy := none
    materialized := fun f =>
      if f ∈ request then (act.written f).getD (s.get f) else s.get f }

theorem FlagAct.get_eager (act : FlagAct) (request : FlagSet) (s : FlagState) (f : Flag) :
    (act.eager request s).get f =
      if f ∈ request then (act.written f).getD (s.get f) else s.get f := rfl

/-- One lazy act against its eager form: it must define only requested flags, and each flag
it drops must have its current value in the settled copy. -/
theorem FlagAct.image_apply_eq_eager {act : FlagAct} {request : FlagSet} {s t : FlagState}
    (hdefines : act.defines ⊆ request)
    (hdrops : ∀ f ∈ act.drops, s.materialized f = s.get f) (h : s.image = t.image) :
    (act.apply s).image = (act.eager request t).image := by
  have hget : s.get = t.get := congrArg FlagImage.bit h
  have hdf : s.df = t.df := congrArg FlagImage.df h
  have hac : s.ac = t.ac := congrArg FlagImage.ac h
  have hbit : (act.apply s).get = (act.eager request t).get := by
    funext f
    rw [get_apply, get_eager, ← hget]
    cases hw : act.written f with
    | some b =>
      have hreq : f ∈ request := hdefines ((act.written_isSome f).mp (by simp [hw]))
      rw [if_pos hreq]
      rfl
    | none =>
      by_cases hf : act.forgets f = true
      · simp [hf, hdrops f ((act.forgets_iff f).mp hf)]
      · simp [hf]
  have hctl : (act.apply s).df = (act.eager request t).df ∧
      (act.apply s).ac = (act.eager request t).ac := by
    cases act with
    | withUpdate lazy update =>
      cases update <;> simp [eager, apply, FlagState.setLazyWithUpdate,
        FlagState.materializeAll, hdf, hac]
    | _ => simp [eager, apply, FlagState.materializeAll, hdf, hac]
  simp only [FlagState.image, hbit, hctl.1, hctl.2]

/-- Machines that differ at most in how their flags are represented. -/
structure SameView (m e : Machine μ) : Prop where
  regs : m.regs = e.regs
  mem : m.mem = e.mem
  pc : m.pc = e.pc
  flags : m.flags.image = e.flags.image

theorem SameView.inputs {m e : Machine μ} (h : SameView m e) (env : Env) :
    m.inputs env = e.inputs env := by
  obtain ⟨hregs, hmem, hpc, hflags⟩ := h
  have hread : m.read env = e.read env := by funext r; rw [Machine.read, Machine.read, hregs]
  simp [Machine.inputs, hread, hmem, hpc, hflags]

/-- The state before a step lets it keep the flags it should: the operation defines only
flags it is asked for, and for each flag it drops the settled copy is up to date. -/
def KeepsFlags (env : Env) (op : SmirOp μ) (m : Machine μ) : Prop :=
  op.kind.flagsDefined env (m.inputs env) ⊆ op.kind.request ∧
    ∀ f ∈ op.kind.flagsDropped env (m.inputs env), m.flags.materialized f = m.flags.get f

section Run

variable [SmirMemory μ]

/-- Execute one operation with eager flags. -/
def execEager (env : Env) (op : SmirOp μ) (m : Machine μ) : Outcome (Machine μ) ExitReason :=
  (eval env op (m.inputs env)).finish m.pc op.kind.writesMemory m fun mem eff =>
    { m.commit env mem eff with flags := eff.flags.eager op.kind.request m.flags }

/-- One step of the lazy machine against one step of the eager machine. -/
theorem exec_sim_execEager {env : Env} {op : SmirOp μ} {m e : Machine μ}
    (hkeep : KeepsFlags env op m) (h : SameView m e) :
    Outcome.Rel SameView SameView (exec env op m) (execEager env op e) := by
  rw [exec, execEager, ← h.inputs env, ← h.pc]
  obtain ⟨hdefines, hdrops⟩ := hkeep
  rw [← (eval_flag_footprint env op _).1] at hdefines
  rw [← (eval_flag_footprint env op _).2] at hdrops
  cases hev : (eval env op (m.inputs env)).2 with
  | error err =>
    simp only [Evaluated.finish, hev]
    exact .exit ⟨h.regs, rfl, h.pc, h.flags⟩
  | ok eff =>
    have hact : (eval env op (m.inputs env)).flagAct = eff.flags := by
      simp [Evaluated.flagAct, hev]
    rw [hact] at hdefines hdrops
    have hview : SameView (m.commit env (eval env op (m.inputs env)).1 eff)
        { e.commit env (eval env op (m.inputs env)).1 eff with
          flags := eff.flags.eager op.kind.request e.flags } :=
      { regs := by simp [Machine.commit, h.regs]
        mem := rfl
        pc := h.pc
        flags := FlagAct.image_apply_eq_eager hdefines hdrops h.flags }
    cases hx : eff.exit with
    | none =>
      simp only [Evaluated.finish, hev, hx]
      exact .next hview
    | some x =>
      simp only [Evaluated.finish, hev, hx]
      exact .exit hview

/-- Along every run whose steps keep their flags, the lazy and the eager machine end in the
same way with the same registers and memory, and every flag reads the same. -/
theorem lazy_run_eq_eager_run (env : Env) (ops : List (SmirOp μ)) (m : Machine μ)
    (h : Along (exec env) (KeepsFlags env) ops m) :
    Outcome.Rel SameView SameView (runSeq (exec env) ops m) (runSeq (execEager env) ops m) := by
  have hsim : Outcome.Rel SameView SameView (runSeq (exec env) ops m)
      (runSeq (execEager env) (ops.map id) m) :=
    runSeq_sim id (fun op m e hkeep hview => exec_sim_execEager hkeep hview) h
      ⟨rfl, rfl, rfl, rfl⟩
  rwa [List.map_id] at hsim

end Run

/-- A comparison, a settling of its flags, and an increment that then keeps the carry. -/
theorem lazy_run_eq_eager_run_inc :
    let env : Env := { arch := .x86, sourceArch := .x86_64 }
    let ops : List (SmirOp FlatMemory) :=
      [⟨0, .cmp (.imm 0) (.imm 1) .w32, false⟩, ⟨3, .materializeFlags, false⟩,
        ⟨3, .inc .rax .rax .w32 .all, false⟩]
    Along (exec env) (KeepsFlags env) ops Machine.blank ∧
      Outcome.Rel SameView SameView (runSeq (exec env) ops Machine.blank)
        (runSeq (execEager env) ops Machine.blank) := by
  intro env ops
  have h : Along (exec env) (KeepsFlags env) ops Machine.blank := by
    refine ⟨⟨fun f hf => hf, fun f hf => absurd hf (by simp [OpKind.flagsDropped])⟩,
      fun s₁ hs₁ => ?_⟩
    obtain rfl := Outcome.next.inj hs₁
    refine ⟨⟨fun f hf => absurd hf (by simp [OpKind.flagsDefined]),
      fun f hf => absurd hf (by simp [OpKind.flagsDropped])⟩, fun s₂ hs₂ => ?_⟩
    obtain rfl := Outcome.next.inj hs₂
    exact ⟨⟨fun f _ => FlagSet.mem_allX86 f, fun f _ => rfl⟩, fun _ _ => trivial⟩
  exact ⟨h, lazy_run_eq_eager_run env ops _ h⟩

/-- An addition that carries, then an increment: the carry is lost, because the increment
replaces the pending record of the addition. -/
theorem inc_loses_pending_carry :
    let env : Env := { arch := .x86, sourceArch := .x86_64 }
    let ops : List (SmirOp FlatMemory) :=
      [⟨0, .add (.virt 0) (.imm 0xFF) (.imm 1) .w8 .all, false⟩,
        ⟨2, .inc (.virt 1) (.virt 1) .w8 .all, false⟩]
    (runSeq (exec env) ops Machine.blank).state.flags.get .cf = false ∧
      (runSeq (execEager env) ops Machine.blank).state.flags.get .cf = true := by
  exact ⟨rfl, rfl⟩

end Rax.Smir

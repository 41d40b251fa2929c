import Rax.Lib.Rewriting
import Rax.Smir.Interpret.Move
import Rax.Smir.Optimize.RegFootprint

/-!
# Redundant load elimination

`redundant_load_elimination_block` of `smir/optimize/mod.rs`. The first load from an address
records its destination, and later loads with the same key become moves from that register.
Entries are dropped when memory may have changed and when the base register of the address
is redefined. The register that received the value is not watched, and a move of the access
width does not extend the sign.
-/

namespace Rax.Smir

variable {μ : Type}

/-- The key of `mem_to_reg`. -/
structure LoadKey where
  base : Option VReg
  offset : Word
  width : MemWidth
  sign : SignExtend
  deriving DecidableEq, Repr

/-- `address_key`: the addresses that are tracked. -/
def addressKey (addr : Address) (width : MemWidth) (ext : SignExtend) : Option LoadKey :=
  match addr with
  | .direct r => some ⟨some r, 0, width, ext⟩
  | .baseOffset base offset => some ⟨some base, offset, width, ext⟩
  | .absolute a => some ⟨none, a, width, ext⟩
  | _ => none

/-- The width of the move that replaces a load. -/
def MemWidth.moveWidth (width : MemWidth) : OpWidth := width.toOpWidth.getD .w64

namespace OpKind

/-- Destination and key of a load from a tracked address. -/
def trackedLoad : OpKind μ → Option (VReg × LoadKey)
  | .load dst addr width ext => (addressKey addr width ext).map (dst, ·)
  | _ => none

/-- The operations that empty the table. Of those outside the integer core, `barrier` marks
`Fence` and `Syscall`. -/
def dropsLoads (barrier : OtherOp μ → Bool) : OpKind μ → Bool
  | .ioIn .. | .ioOut .. => true
  | .other o => o.writesMemory || barrier o
  | kind => kind.writesMemory

end OpKind

/-- The table `mem_to_reg`. -/
abbrev LoadTable := LoadKey → Option VReg

namespace LoadTable

/-- The operation that is pushed to the new block. -/
def replace (table : LoadTable) (op : SmirOp μ) : SmirOp μ :=
  match op.kind.trackedLoad with
  | some (dst, key) =>
    match table key with
    | some existing => ⟨op.guestPc, .mov dst (.reg existing) key.width.moveWidth, false⟩
    | none => op
  | none => op

/-- The table after the match on the operation. -/
def record (barrier : OtherOp μ → Bool) (table : LoadTable) (kind : OpKind μ) : LoadTable :=
  match kind.trackedLoad with
  | some (dst, key) =>
    if (table key).isSome then table else Function.update table key (some dst)
  | none => if kind.dropsLoads barrier then fun _ => none else table

/-- Drop the entries whose base register is among the destinations. -/
def forget (table : LoadTable) (dests : List VReg) : LoadTable := fun key =>
  if key.base.any (· ∈ dests) then none else table key

end LoadTable

section Pass

variable (barrier : OtherOp μ → Bool)

/-- One iteration of the loop. -/
def loadStep (table : LoadTable) (op : SmirOp μ) : SmirOp μ × LoadTable :=
  (table.replace op, (table.record barrier op.kind).forget op.kind.dests)

/-- The number of loads replaced. -/
def eliminatedCount : LoadTable → List (SmirOp μ) → Nat
  | _, [] => 0
  | table, op :: ops =>
    (if (op.kind.trackedLoad.bind fun p => table p.2).isSome then 1 else 0) +
      eliminatedCount (loadStep barrier table op).2 ops

/-- `redundant_load_elimination_block`. -/
def redundantLoadEliminationBlock (ops : List (SmirOp μ)) : List (SmirOp μ) × Nat :=
  (rewriteSeq (loadStep barrier) (fun _ => none) ops,
    eliminatedCount barrier (fun _ => none) ops)

end Pass

section Correctness

variable (env : Env) (barrier : OtherOp μ → Bool)

/-- A load of this key leaves its value in the destination and the address as it was. -/
def LoadKey.settles (key : LoadKey) (dst : VReg) : Bool :=
  decide (key.width.moveWidth.mask &&& storeMask env.arch dst = key.width.moveWidth.mask) &&
    key.base.all fun b => !decide (Shares env.arch b dst)

/-- Which entries are certain to hold after an operation, given those that are certain
before it: an entry that the operation has just loaded, and an entry of which neither the
value nor the base register is written. -/
def loadsIntactAfter (table : LoadTable) (intact : LoadKey → Bool) (op : SmirOp μ)
    (key : LoadKey) : Bool :=
  let kept := intact key && (table key).all (op.kind.spares env) &&
    key.base.all (op.kind.spares env)
  match op.kind.trackedLoad with
  | some (dst, loaded) =>
    if loaded = key ∧ (table key).getD dst = dst then key.settles env dst else kept
  | none => kept

/-- A replaced load copies from an entry that is certain to hold, and needs no sign
extension by the move. -/
def UsesIntactLoad (table : LoadTable) (intact : LoadKey → Bool) (op : SmirOp μ) : Prop :=
  ∀ dst key, op.kind.trackedLoad = some (dst, key) → table key ≠ none →
    intact key = true ∧ (key.sign = .zero ∨ key.width = .b8)

/-- A block in which every replaced load meets these conditions. -/
def LoadsIntact (ops : List (SmirOp μ)) : Prop :=
  Throughout (loadStep barrier) (loadsIntactAfter env) UsesIntactLoad (fun _ => none)
    (fun _ => false) ops

variable [SmirMemory μ]

/-- What `allow_redundant_load_elimination` promises of an operation: a load completes and
leaves the memory as it is, and until memory is written a load gives the same value again. -/
structure LoadContract (op : SmirOp μ) (m : Machine μ) : Prop where
  plain : ∀ dst addr width ext, op.kind = .load dst addr width ext →
    ∃ v, loadMemory m.mem (computeAddress env (m.inputs env) addr) width ext = (m.mem, .ok v)
  stable : op.kind.dropsLoads barrier = false → ∀ m', exec env op m = .next m' →
    ∀ addr width ext v, loadMemory m.mem addr width ext = (m.mem, .ok v) →
      loadMemory m'.mem addr width ext = (m'.mem, .ok v)

/-- The address of a key. -/
def LoadKey.address (key : LoadKey) (m : Machine μ) : Word :=
  (key.base.map (m.read env)).getD 0 + key.offset

/-- The invariant of the pass: a load of the key would give what the register holds. -/
def LoadsHold (table : LoadTable) (intact : LoadKey → Bool) (m : Machine μ) : Prop :=
  ∀ key r, table key = some r → intact key = true →
    ∃ v, loadMemory m.mem (key.address env m) key.width key.sign = (m.mem, .ok v) ∧
      m.read env r &&& key.width.moveWidth.mask = v &&& key.width.moveWidth.mask

variable {env barrier} {table : LoadTable} {intact : LoadKey → Bool} {op : SmirOp μ}
  {m m' : Machine μ}

omit [SmirMemory μ] in
/-- A tracked load is a load from the address of its key. -/
theorem load_of_trackedLoad {dst : VReg} {key : LoadKey}
    (h : op.kind.trackedLoad = some (dst, key)) :
    ∃ addr, op.kind = .load dst addr key.width key.sign ∧
      ∀ env (m : Machine μ), computeAddress env (m.inputs env) addr = key.address env m := by
  obtain ⟨pc, kind, hint⟩ := op
  cases kind with
  | load d addr width ext =>
    have hzero (x : Word) : x + 0 = x := BitVec.add_zero x
    have hadd (x : Word) : 0 + x = x := BitVec.zero_add x
    cases addr with
    | direct r =>
      cases h
      refine ⟨_, rfl, fun env m => ?_⟩
      exact (hzero (m.read env r)).symm
    | baseOffset base offset =>
      cases h
      exact ⟨_, rfl, fun env m => rfl⟩
    | absolute a =>
      cases h
      refine ⟨_, rfl, fun env m => ?_⟩
      exact (hadd a).symm
    | _ => cases h
  | _ => cases h

theorem exec_load {dst : VReg} {addr : Address} {width : MemWidth} {ext : SignExtend} {v : Word}
    (hkind : op.kind = .load dst addr width ext)
    (hload : loadMemory m.mem (computeAddress env (m.inputs env) addr) width ext =
      (m.mem, .ok v)) :
    exec env op m =
      .next { m with regs := (Interpret.loadWrite dst width ext v).apply env.arch m.regs } := by
  obtain ⟨pc, kind, hint⟩ := op
  obtain rfl : kind = .load dst addr width ext := hkind
  have heval : eval env ⟨pc, .load dst addr width ext, hint⟩ (m.inputs env) =
      (m.inputs env).done { writes := [Interpret.loadWrite dst width ext v] } := by
    have hmem : loadMemory (m.inputs env).mem (computeAddress env (m.inputs env) addr) width
        ext = (m.mem, .ok v) := hload
    simp only [eval, Interpret.load, hmem]
    rfl
  exact exec_of_writes_one heval rfl rfl rfl

/-- What a load merges into its destination agrees with the value at the access width. -/
theorem merge_loadWrite (dst : VReg) (width : MemWidth) (ext : SignExtend) (v old : Word) :
    (Interpret.loadWrite dst width ext v).merge old &&& width.moveWidth.mask =
      v &&& width.moveWidth.mask := by
  cases ext with
  | sign => rfl
  | zero => exact RegWrite.merge_part_and_mask dst width.moveWidth v old

omit [SmirMemory μ] in
/-- A zero-extending or eight-byte load is a move of the value at the access width. -/
theorem loadWrite_eq_moveTo {width : MemWidth} {ext : SignExtend}
    (h : ext = .zero ∨ width = .b8) (dst : VReg) (v : Word) :
    { m with regs := (Interpret.loadWrite dst width ext v).apply env.arch m.regs } =
      m.moveTo env dst width.moveWidth v := by
  cases ext with
  | zero => rfl
  | sign =>
    obtain rfl : width = .b8 := h.resolve_left (by decide)
    have hfull : v &&& 0xFFFFFFFFFFFFFFFF = v := BitVec.and_allOnes
    have hmerge (old : Word) : (RegWrite.mk dst (.part .w64) v).merge old = v := by
      have hsub : OpWidth.isSub .w64 = false := rfl
      simp only [RegWrite.merge, hsub, Bool.and_false, Bool.false_eq_true, if_false]
      exact hfull
    refine congrArg (fun regs => { m with regs }) ?_
    exact (congrArg (m.regs.write env.arch dst) (hmerge _)).symm

/-- A replaced load does what the load did. -/
theorem exec_replace (hI : LoadsHold env table intact m) (hC : UsesIntactLoad table intact op) :
    exec env (table.replace op) m = exec env op m := by
  cases htr : op.kind.trackedLoad with
  | none => simp only [LoadTable.replace, htr]
  | some p =>
    obtain ⟨dst, key⟩ := p
    cases hent : table key with
    | none => simp only [LoadTable.replace, htr, hent]
    | some r =>
      obtain ⟨hint, hsign⟩ := hC dst key htr (by simp [hent])
      obtain ⟨v, hload, hval⟩ := hI key r hent hint
      obtain ⟨addr, hkind, haddr⟩ := load_of_trackedLoad htr
      rw [← haddr] at hload
      simp only [LoadTable.replace, htr, hent]
      rw [exec_mov, exec_load hkind hload, loadWrite_eq_moveTo hsign]
      exact congrArg _ (Machine.moveTo_congr hval)

omit [SmirMemory μ] in
/-- An entry survives an operation only if it stood before or the operation loads it. -/
theorem loadStep_eq_some {key : LoadKey} {r : VReg}
    (h : (loadStep barrier table op).2 key = some r) :
    table key = some r ∧ op.kind.dropsLoads barrier = false ∨
      table key = none ∧ op.kind.trackedLoad = some (r, key) := by
  simp only [loadStep, LoadTable.forget] at h
  split at h
  · cases h
  · cases htr : op.kind.trackedLoad with
    | none =>
      simp only [LoadTable.record, htr] at h
      cases hdrop : op.kind.dropsLoads barrier with
      | true =>
        rw [hdrop, if_pos rfl] at h
        cases h
      | false =>
        rw [hdrop, if_neg (by decide)] at h
        exact Or.inl ⟨h, rfl⟩
    | some p =>
      obtain ⟨dst, loaded⟩ := p
      obtain ⟨addr, hkind, -⟩ := load_of_trackedLoad htr
      have hdrop : op.kind.dropsLoads barrier = false := by rw [hkind]; rfl
      simp only [LoadTable.record, htr] at h
      by_cases hsome : (table loaded).isSome = true
      · rw [if_pos hsome] at h
        exact Or.inl ⟨h, hdrop⟩
      · rw [if_neg hsome] at h
        by_cases hkey : key = loaded
        · subst hkey
          rw [Function.update_self] at h
          obtain rfl := Option.some.inj h
          exact Or.inr ⟨by simpa using hsome, rfl⟩
        · rw [Function.update_of_ne hkey] at h
          exact Or.inl ⟨h, hdrop⟩

/-- After a load its destination holds the value, and loading again would give it again. -/
theorem holds_of_settles {dst : VReg} {key : LoadKey} (hP : LoadContract env barrier op m)
    (htr : op.kind.trackedLoad = some (dst, key)) (hset : key.settles env dst = true)
    (hexec : exec env op m = .next m') :
    ∃ v, loadMemory m'.mem (key.address env m') key.width key.sign = (m'.mem, .ok v) ∧
      m'.read env dst &&& key.width.moveWidth.mask = v &&& key.width.moveWidth.mask := by
  obtain ⟨addr, hkind, haddr⟩ := load_of_trackedLoad htr
  obtain ⟨v, hload⟩ := hP.plain dst addr key.width key.sign hkind
  rw [LoadKey.settles, Bool.and_eq_true, decide_eq_true_eq] at hset
  obtain ⟨hmask, hbase⟩ := hset
  have hnext := hexec.symm.trans (exec_load hkind hload)
  have hm' := Outcome.next.inj hnext
  have hread : m'.read env dst =
      (Interpret.loadWrite dst key.width key.sign v).merge (m.read env dst) &&&
        storeMask env.arch dst := by
    rw [hm']
    have hne : storeMask env.arch dst ≠ 0 := by
      intro hzero
      rw [hzero] at hmask
      revert hmask
      cases key.width <;> decide
    have hdst : (Interpret.loadWrite dst key.width key.sign v).dst = dst := by
      cases key.sign <;> rfl
    simp only [Machine.read, RegWrite.apply, hdst]
    exact RegFile.read_write_of_storeMask_ne hne
  have hsame : key.address env m' = key.address env m := by
    cases hb : key.base with
    | none => simp [LoadKey.address, hb]
    | some b =>
      have hns : ¬ Shares env.arch b dst := by simpa [hb] using hbase
      have hdst : (Interpret.loadWrite dst key.width key.sign v).dst = dst := by
        cases key.sign <;> rfl
      have hreadb : m'.read env b = m.read env b := by
        rw [hm']
        exact RegWrite.read_apply_of_not_shares (hdst.symm ▸ hns)
      simp only [LoadKey.address, hb, Option.map_some, hreadb]
  refine ⟨v, ?_, ?_⟩
  · rw [haddr] at hload
    rw [hsame]
    exact hP.stable (by rw [hkind]; rfl) m' hexec _ _ _ _ hload
  · rw [hread, BitVec.and_assoc, BitVec.and_comm (storeMask env.arch dst), hmask]
    exact merge_loadWrite dst key.width key.sign v _

/-- One step keeps the invariant. -/
theorem LoadsHold.next (hI : LoadsHold env table intact m) (hP : LoadContract env barrier op m)
    (hexec : exec env op m = .next m') :
    LoadsHold env (loadStep barrier table op).2 (loadsIntactAfter env table intact op) m' := by
  intro key r hent hint
  have kept (hold : table key = some r) (hdrop : op.kind.dropsLoads barrier = false)
      (h : (intact key && (table key).all (op.kind.spares env) &&
        key.base.all (op.kind.spares env)) = true) :
      ∃ v, loadMemory m'.mem (key.address env m') key.width key.sign = (m'.mem, .ok v) ∧
        m'.read env r &&& key.width.moveWidth.mask = v &&& key.width.moveWidth.mask := by
    simp only [hold, Option.all_some, Bool.and_eq_true] at h
    obtain ⟨⟨hcert, hr⟩, hb⟩ := h
    obtain ⟨v, hload, hval⟩ := hI key r hold hcert
    have hsame : key.address env m' = key.address env m := by
      cases hbase : key.base with
      | none => simp [LoadKey.address, hbase]
      | some b =>
        rw [hbase, Option.all_some] at hb
        simp only [LoadKey.address, hbase, Option.map_some, read_exec_of_spares hb hexec]
    refine ⟨v, ?_, ?_⟩
    · rw [hsame]
      exact hP.stable hdrop m' hexec _ _ _ _ hload
    · rw [read_exec_of_spares hr hexec, hval]
  rcases loadStep_eq_some hent with ⟨hold, hdrop⟩ | ⟨hnone, htr⟩
  · cases htr : op.kind.trackedLoad with
    | none =>
      simp only [loadsIntactAfter, htr] at hint
      exact kept hold hdrop hint
    | some p =>
      obtain ⟨dst, loaded⟩ := p
      simp only [loadsIntactAfter, htr] at hint
      split at hint
      · next hload =>
        obtain ⟨rfl, hdst⟩ := hload
        rw [hold, Option.getD_some] at hdst
        subst hdst
        exact holds_of_settles hP htr hint hexec
      · exact kept hold hdrop hint
  · simp only [loadsIntactAfter, htr, hnone, Option.getD_none, and_self, if_true] at hint
    exact holds_of_settles hP htr hint hexec

variable (env barrier) in
/-- The pass preserves the run from a state, and every operation it replaces does there what
its replacement does. -/
def EliminatesLoads (ops : List (SmirOp μ)) (m : Machine μ) : Prop :=
  runOps env (redundantLoadEliminationBlock barrier ops).1 m = runOps env ops m ∧
    AlongWith (exec env) (loadStep barrier)
      (fun table op m => exec env (table.replace op) m = exec env op m) (fun _ => none) ops m

/-- Under the promise of the attribute, the pass is right on every block in which the
replaced loads copy from registers that still hold the loaded value. -/
theorem redundantLoadElimination_eliminatesLoads {ops : List (SmirOp μ)} {m : Machine μ}
    (h : LoadsIntact env barrier ops) (hP : Along (exec env) (LoadContract env barrier) ops m) :
    EliminatesLoads env barrier ops m := by
  have halong : AlongWith (exec env) (loadStep barrier)
      (fun table op m => exec env (table.replace op) m = exec env op m)
      (fun _ => none) ops m := by
    refine alongWith_of_invariant (LoadsHold env) ?_ ?_ ?_ h hP
    · intro table intact op m hI hC _
      exact exec_replace hI hC
    · intro table intact op m m' hI _ hP hexec
      exact hI.next hP hexec
    · intro key r hent
      cases hent
  exact ⟨runSeq_rewriteSeq halong, halong⟩

end Correctness

section Blocks

/-- No operation outside the integer core is a barrier. -/
def noBarrier (_ : OtherOp μ) : Bool := false

theorem loadContract_load_b8 (env : Env) (m : Machine FlatMemory) (pc : Word) (dst : VReg)
    (addr : Address) (ext : SignExtend) :
    LoadContract env noBarrier ⟨pc, .load dst addr .b8 ext, false⟩ m := by
  have hload : ∃ v, loadMemory m.mem (computeAddress env (m.inputs env) addr) .b8 ext =
      (m.mem, .ok v) := ⟨_, rfl⟩
  refine ⟨?_, ?_⟩
  · rintro dst addr width ext ⟨⟩
    exact hload
  · intro _ m' hexec addr width ext v hv
    obtain ⟨u, hu⟩ := hload
    rw [exec_load rfl hu] at hexec
    obtain rfl := Outcome.next.inj hexec
    exact hv

theorem loadContract_mov (env : Env) (m : Machine FlatMemory) (pc : Word) (dst : VReg)
    (src : SrcOperand) (width : OpWidth) :
    LoadContract env noBarrier ⟨pc, .mov dst src width, false⟩ m := by
  refine ⟨?_, ?_⟩
  · rintro dst addr width ext ⟨⟩
  · intro _ m' hexec addr width ext v hv
    rw [exec_mov] at hexec
    obtain rfl := Outcome.next.inj hexec
    exact hv

/-- Two loads from one address, with a move of another register in between. -/
def loadTwice : List (SmirOp FlatMemory) :=
  [⟨0, .load .rcx (.direct .rbx) .b8 .zero, false⟩,
    ⟨0, .mov .rax (.imm 5) .w64, false⟩,
    ⟨0, .load .rdx (.direct .rbx) .b8 .zero, false⟩]

theorem loadTwice_eliminatesLoads :
    LoadsIntact ⟨.x86, .x86_64, {}⟩ noBarrier loadTwice ∧
      EliminatesLoads ⟨.x86, .x86_64, {}⟩ noBarrier loadTwice (.blankWith .rbx 0x1000) := by
  have hintact : LoadsIntact ⟨.x86, .x86_64, {}⟩ noBarrier loadTwice := by
    refine ⟨?_, ?_, ?_, trivial⟩
    · rintro dst key - h
      exact absurd rfl h
    · rintro dst key ⟨⟩
    · rintro dst key htr -
      obtain ⟨rfl, rfl⟩ := Prod.mk.inj (Option.some.inj htr)
      exact ⟨by decide, Or.inl rfl⟩
  refine ⟨hintact, redundantLoadElimination_eliminatesLoads hintact ?_⟩
  refine ⟨loadContract_load_b8 .., fun _ _ => ⟨loadContract_mov .., fun _ _ => ?_⟩⟩
  exact ⟨loadContract_load_b8 .., fun _ _ => trivial⟩

example : ((redundantLoadEliminationBlock noBarrier loadTwice).1.map fun op => op.kind.reads) =
    [[.rbx], [], [.rcx]] := by decide

/-- The register that received the first load is overwritten before the second. -/
def loadOverwritten : List (SmirOp FlatMemory) :=
  [⟨0, .load .rcx (.direct .rbx) .b8 .zero, false⟩,
    ⟨0, .mov .rcx (.imm 5) .w64, false⟩,
    ⟨0, .load .rdx (.direct .rbx) .b8 .zero, false⟩]

/-- The pass then copies the new value although memory still holds the old one. -/
theorem loadOverwritten_changes :
    Along (exec ⟨.x86, .x86_64, {}⟩) (LoadContract ⟨.x86, .x86_64, {}⟩ noBarrier)
        loadOverwritten (.blankWith .rbx 0x1000) ∧
      ¬ EliminatesLoads ⟨.x86, .x86_64, {}⟩ noBarrier loadOverwritten
        (.blankWith .rbx 0x1000) := by
  constructor
  · refine ⟨loadContract_load_b8 .., fun _ _ => ⟨loadContract_mov .., fun _ _ => ?_⟩⟩
    exact ⟨loadContract_load_b8 .., fun _ _ => trivial⟩
  · rintro ⟨hrun, -⟩
    have hread := congrArg
      (fun o : Outcome _ _ => o.state.read ⟨.x86, .x86_64, {}⟩ .rdx) hrun
    revert hread
    decide

end Blocks

end Rax.Smir

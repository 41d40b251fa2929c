import Rax.Lib.Worklist
import Rax.Smir.Interpret.Run

/-!
# Folding branches

`branch_folding` of `smir/optimize/mod.rs`: conditional branches with one target become
unconditional, and blocks that the entry does not lead to are removed. For distinct ids the
kept blocks are exactly those that the entry leads to, and a run does not change as long as
it executes only such blocks. An indirect branch may reach another block by its address; the
folded function has no block there.
-/

namespace Rax.Smir

variable {μ : Type}

/-- A conditional branch whose targets are equal becomes a branch. -/
def Terminator.fold : Terminator → Terminator
  | condBranch cond trueTarget falseTarget =>
    if trueTarget = falseTarget then branch trueTarget
    else condBranch cond trueTarget falseTarget
  | term => term

/-- Whether `fold` rewrites a terminator. -/
def Terminator.folds : Terminator → Bool
  | condBranch _ trueTarget falseTarget => trueTarget = falseTarget
  | _ => false

def SmirBlock.fold (block : SmirBlock μ) : SmirBlock μ :=
  { block with terminator := block.terminator.fold }

namespace SmirFunction

/-- Successors of the first block with an id. -/
def successors (func : SmirFunction μ) (id : BlockId) : List BlockId :=
  match func.getBlock id with
  | some block => block.terminator.successors
  | none => []

/-- The blocks that the entry leads to. -/
def Reaches (func : SmirFunction μ) (id : BlockId) : Prop := Leads func.successors func.entry id

def foldBranches (func : SmirFunction μ) : SmirFunction μ :=
  { func with blocks := func.blocks.map SmirBlock.fold }

end SmirFunction

/-- `branch_folding`, with the number of changes; nothing if the fuel does not suffice to
explore the function. -/
def branchFolding (fuel : Nat) (func : SmirFunction μ) : Option (SmirFunction μ × Nat) :=
  let folded := func.foldBranches
  (explore folded.successors fuel [folded.entry] ∅).map fun reachable =>
    let kept := folded.blocks.filter (·.id ∈ reachable)
    ({ folded with blocks := kept },
      func.blocks.countP (·.terminator.folds) + (folded.blocks.length - kept.length))

section Structure

variable {func folded : SmirFunction μ} {fuel count : Nat} {block : SmirBlock μ} {id : BlockId}

theorem mem_successors_fold (term : Terminator) :
    id ∈ term.fold.successors ↔ id ∈ term.successors := by
  unfold Terminator.fold
  split
  · split
    · next heq => simp [Terminator.successors, heq]
    · rfl
  · rfl

theorem mem_successors_foldBranches {a : BlockId} :
    id ∈ func.foldBranches.successors a ↔ id ∈ func.successors a := by
  have hget : func.foldBranches.getBlock a = (func.getBlock a).map SmirBlock.fold :=
    List.find?_map ..
  unfold SmirFunction.successors
  rw [hget]
  cases func.getBlock a with
  | none => rfl
  | some block => exact mem_successors_fold block.terminator

theorem reaches_foldBranches : func.foldBranches.Reaches id ↔ func.Reaches id := by
  have hedges : (fun a b => b ∈ func.foldBranches.successors a) =
      fun a b => b ∈ func.successors a := by
    funext a b
    exact propext mem_successors_foldBranches
  unfold SmirFunction.Reaches Leads
  rw [hedges]
  rfl

theorem branchFolding_ends (func : SmirFunction μ) :
    ∃ fuel result, branchFolding fuel func = some result := by
  let folded := func.foldBranches
  have hnodes : ∀ k ∉ (folded.blocks.map (·.id)).toFinset, folded.successors k = [] := by
    intro k hk
    have hnone : folded.getBlock k = none := by
      rw [SmirFunction.getBlock, List.find?_eq_none]
      intro block hblock hid
      exact hk (List.mem_toFinset.mpr (List.mem_map.mpr ⟨block, hblock, by simpa using hid⟩))
    rw [SmirFunction.successors, hnone]
  obtain ⟨reachable, hreach⟩ := explore_ends hnodes [folded.entry] ∅ (Nat.lt_succ_self _)
  exact ⟨_, _, by rw [branchFolding, hreach]; rfl⟩

/-- What is kept: the folded blocks that the entry leads to. -/
theorem branchFolding_spec (h : branchFolding fuel func = some (folded, count)) :
    ∃ reachable : Finset BlockId, (∀ id, id ∈ reachable ↔ func.Reaches id) ∧
      folded.blocks = (func.blocks.map SmirBlock.fold).filter (·.id ∈ reachable) := by
  obtain ⟨reachable, hexplore, heq⟩ := Option.map_eq_some_iff.mp h
  obtain ⟨rfl, -⟩ := Prod.mk.inj heq
  have hstart : Exploring func.foldBranches.successors func.entry [func.entry] ∅ := by
    refine ⟨.inr List.mem_cons_self, fun a ha => absurd ha (Finset.notMem_empty a), ?_⟩
    rintro a (ha | ha)
    · exact absurd ha (Finset.notMem_empty a)
    · obtain rfl := List.mem_singleton.mp ha
      exact .refl
  refine ⟨reachable, fun id => ?_, rfl⟩
  exact (mem_of_explore hexplore hstart).trans reaches_foldBranches

theorem mem_branchFolding (h : branchFolding fuel func = some (folded, count)) :
    block ∈ folded.blocks ↔ ∃ b ∈ func.blocks, func.Reaches b.id ∧ block = b.fold := by
  obtain ⟨reachable, hreach, hblocks⟩ := branchFolding_spec h
  rw [hblocks, List.mem_filter, List.mem_map, decide_eq_true_iff, hreach]
  constructor
  · rintro ⟨⟨b, hb, rfl⟩, hkept⟩
    exact ⟨b, hb, hkept, rfl⟩
  · rintro ⟨b, hb, hkept, rfl⟩
    exact ⟨⟨b, hb, rfl⟩, hkept⟩

theorem reaches_successor (hids : func.DistinctIds) (hblock : block ∈ func.blocks)
    (hreach : func.Reaches block.id) (hid : id ∈ block.terminator.successors) :
    func.Reaches id := by
  refine hreach.tail ?_
  rw [SmirFunction.successors, hids.getBlock_of_mem hblock]
  exact hid

end Structure

section Lookup

variable {β : Type} {p q : β → Bool} {l : List β} {b : β}

theorem find?_filter_of_keep (h : l.find? q = some b) (hkeep : p b = true) :
    (l.filter p).find? q = some b := by
  obtain ⟨hq, before, after, rfl, hbefore⟩ := List.find?_eq_some_iff_append.mp h
  rw [List.find?_filter, List.find?_eq_some_iff_append]
  refine ⟨by simp [hq, hkeep], before, after, rfl, fun a ha => ?_⟩
  have := hbefore a ha
  simp_all

theorem find?_filter_of_imp (h : ∀ a ∈ l, q a = true → p a = true) :
    (l.filter p).find? q = l.find? q := by
  induction l with
  | nil => rfl
  | cons a l ih =>
    obtain ⟨ha, hl⟩ := List.forall_mem_cons.mp h
    cases hq : q a with
    | true => simp [ha hq, hq]
    | false =>
      rw [List.find?_cons_of_neg (by simp [hq]), ← ih hl, List.filter_cons]
      split
      · exact List.find?_cons_of_neg (by simp [hq])
      · rfl

end Lookup

section Run

variable {func folded : SmirFunction μ} {fuel count : Nat} {block : SmirBlock μ}

theorem blockAt_branchFolding_none (h : branchFolding fuel func = some (folded, count)) {pc : Word}
    (hnone : func.blockAt pc = none) : folded.blockAt pc = none := by
  rw [SmirFunction.blockAt, List.find?_eq_none] at hnone ⊢
  intro block hblock
  obtain ⟨b, hb, -, rfl⟩ := (mem_branchFolding h).mp (List.mem_reverse.mp hblock)
  exact hnone b (List.mem_reverse.mpr hb)

theorem blockAt_branchFolding_some (h : branchFolding fuel func = some (folded, count)) {pc : Word}
    (hsome : func.blockAt pc = some block) (hreach : func.Reaches block.id) :
    folded.blockAt pc = some block.fold := by
  obtain ⟨reachable, hreachable, hblocks⟩ := branchFolding_spec h
  rw [SmirFunction.blockAt, hblocks, ← List.filter_reverse, ← List.map_reverse]
  refine find?_filter_of_keep ?_ (decide_eq_true ((hreachable _).mpr hreach))
  rw [List.find?_map]
  exact congrArg (Option.map SmirBlock.fold) hsome

theorem addrOf_branchFolding (h : branchFolding fuel func = some (folded, count)) {id : BlockId}
    (hreach : func.Reaches id) : folded.addrOf id = func.addrOf id := by
  obtain ⟨reachable, hreachable, hblocks⟩ := branchFolding_spec h
  rw [SmirFunction.addrOf, SmirFunction.addrOf, hblocks, ← List.filter_reverse,
    ← List.map_reverse, find?_filter_of_imp, List.find?_map, Option.map_map]
  · rfl
  · intro b _ hid
    rw [beq_iff_eq] at hid
    simpa [hid, hreachable] using hreach

variable [SmirMemory μ] {config : RunConfig}

theorem executeTerminator_fold {env : Env} {functions : FunctionId → Option Word}
    {addrOf : BlockId → Word} (m : Machine μ) (term : Terminator) :
    executeTerminator env functions addrOf m term.fold =
      executeTerminator env functions addrOf m term := by
  unfold Terminator.fold
  split
  · split
    · next heq => rw [heq, executeTerminator_condBranch_same]
    · rfl
  · rfl

theorem execute_branchFolding (hids : func.DistinctIds)
    (h : branchFolding fuel func = some (folded, count)) (hblock : block ∈ func.blocks)
    (hreach : func.Reaches block.id) (m : Machine μ) :
    folded.execute config block.fold m = func.execute config block m := by
  unfold SmirFunction.execute executeBlock
  cases hops : runOps config.env block.ops m with
  | exit reason m' => simp [SmirBlock.fold, hops]
  | next m' =>
    have hsame : ∀ id ∈ block.terminator.successors, folded.addrOf id = func.addrOf id :=
      fun id hid => addrOf_branchFolding h (reaches_successor hids hblock hreach hid)
    simp only [SmirBlock.fold, hops]
    rw [executeTerminator_fold, executeTerminator_congr hsame]

/-- What folding is for: the blocks that the entry leads to are kept and no others, none of
them has lost a successor, and runs through such blocks are the same. -/
structure FoldedTo (func folded : SmirFunction μ) : Prop where
  kept : ∀ block, block ∈ folded.blocks ↔
    ∃ b ∈ func.blocks, func.Reaches b.id ∧ block = b.fold
  closed : ∀ block ∈ folded.blocks, ∀ id ∈ block.terminator.successors,
    (∃ b ∈ func.blocks, b.id = id) → ∃ b ∈ folded.blocks, b.id = id
  run : ∀ (config : RunConfig) (n : Nat) (insns : Word) (m : Machine μ),
    (∀ block ∈ executed config func n insns m, func.Reaches block.id) →
      run config folded n insns m = run config func n insns m

/-- Folding ends, and does what it is for when ids are distinct. -/
theorem branchFolding_foldedTo (func : SmirFunction μ) (hids : func.DistinctIds) :
    (∃ fuel result, branchFolding fuel func = some result) ∧
      ∀ fuel folded count, branchFolding fuel func = some (folded, count) →
        FoldedTo func folded := by
  refine ⟨branchFolding_ends func, fun fuel folded count h => ?_⟩
  refine ⟨fun block => mem_branchFolding h, ?_, fun config n insns m hexecuted => ?_⟩
  · rintro block hblock id hid ⟨target, htarget, rfl⟩
    obtain ⟨b, hb, hreach, rfl⟩ := (mem_branchFolding h).mp hblock
    have hsucc : func.Reaches target.id :=
      reaches_successor hids hb hreach ((mem_successors_fold _).mp hid)
    exact ⟨target.fold, (mem_branchFolding h).mpr ⟨target, htarget, hsucc, rfl⟩, rfl⟩
  · refine run_congr SmirBlock.fold (fun block => func.Reaches block.id) (fun _ => rfl)
      (fun pc => blockAt_branchFolding_none h) (fun pc block hblock hreach => ?_) n insns m
      hexecuted
    have hmem : block ∈ func.blocks := List.mem_reverse.mp (List.mem_of_find?_eq_some hblock)
    exact ⟨blockAt_branchFolding_some h hblock hreach,
      execute_branchFolding hids h hmem hreach⟩

/-- A conditional branch to one block, and a block that nothing leads to. -/
def sameTargets : SmirFunction FlatMemory where
  entry := 0
  blocks :=
    [ { id := 0, guestPc := 0x1000, terminator := .condBranch (.virt 0) 1 1 },
      { id := 1, guestPc := 0x1010, terminator := .ret [] },
      { id := 2, guestPc := 0x1020, terminator := .ret [] } ]

theorem sameTargets_foldedTo : FoldedTo sameTargets
    { entry := 0
      blocks :=
        [ { id := 0, guestPc := 0x1000, terminator := .branch 1 },
          { id := 1, guestPc := 0x1010, terminator := .ret [] } ] } :=
  (branchFolding_foldedTo sameTargets (by decide)).2 3 _ 2 rfl

/-- A jump through RAX with an empty list of possible targets, and the block it goes to. -/
def computedGoto : SmirFunction FlatMemory where
  entry := 0
  blocks :=
    [ { id := 0, guestPc := 0x1000, terminator := .indirectBranch .rax [] },
      { id := 1, guestPc := 0x2000, terminator := .trap .halt } ]

/-- The block is removed: the run that halted there leaves before it. -/
theorem computedGoto_run_changes :
    ((run { env := ⟨.x86, .x86_64, {}⟩ } computedGoto 2 0
        { Machine.blankWith .rax 0x2000 with pc := 0x1000 }).map Prod.fst,
      (branchFolding 2 computedGoto).bind fun result =>
        (run { env := ⟨.x86, .x86_64, {}⟩ } result.1 2 0
          { Machine.blankWith .rax 0x2000 with pc := 0x1000 }).map Prod.fst) =
      (some .halt, some (.blockNotFound 0x2000)) := by
  decide

end Run

end Rax.Smir

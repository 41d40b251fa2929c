import Rax.Smir.Interpret.Run
import Rax.Smir.Optimize.Merging

/-!
# Runs of a function whose blocks were merged

A run of the original function that ends otherwise than at the instruction limit is also a run of
the merged one, with the same exit and the same state but for the program counter. This needs that
control comes to a block other than the entry only along the edges that the pass counts, that no
such block looks at the program counter, and that the pass finds no block it takes for a leftover.
-/

namespace Rax.Smir

variable {μ : Type}

/-! ## Lookups -/

/-- The last element with a key, in a list that has every key once. -/
theorem find_reverse_eq_some {α κ : Type} [BEq κ] [LawfulBEq κ] {key : α → κ} {l : List α}
    (h : (l.map key).Nodup) {k : κ} {a : α} :
    l.reverse.find? (key · == k) = some a ↔ a ∈ l ∧ key a = k := by
  induction l using List.reverseRecOn with
  | nil => simp
  | append_singleton l b ih =>
    rw [List.reverse_append]
    simp only [List.map_append, List.nodup_append] at h
    grind

theorem add_le_sum_map {α : Type} {f : α → Nat} {l : List α} {a b : α} (ha : a ∈ l) (hb : b ∈ l)
    (hne : a ≠ b) : f a + f b ≤ (l.map f).sum := by
  induction l with
  | nil => cases ha
  | cons c l ih =>
    have hle (x : α) (hx : x ∈ l) : f x ≤ (l.map f).sum := by
      clear ha hb ih
      induction l <;> grind
    grind

namespace SmirFunction

/-- Every block has an address of its own. -/
def DistinctAddrs (func : SmirFunction μ) : Prop := (func.blocks.map (·.guestPc)).Nodup

variable {func : SmirFunction μ} {block : SmirBlock μ}

theorem blockAt_eq_some (h : func.DistinctAddrs) {pc : Word} :
    func.blockAt pc = some block ↔ block ∈ func.blocks ∧ block.guestPc = pc :=
  find_reverse_eq_some h

theorem addrOf_of_mem (h : func.DistinctIds) (hmem : block ∈ func.blocks) :
    func.addrOf block.id = block.guestPc := by
  rw [addrOf, (find_reverse_eq_some h).mpr ⟨hmem, rfl⟩]
  rfl

theorem addrOf_of_absent {id : BlockId} (h : ∀ block ∈ func.blocks, block.id ≠ id) :
    func.addrOf id = BitVec.ofNat 64 id := by
  rw [addrOf, List.find?_eq_none.mpr (by simpa using h)]
  rfl

end SmirFunction

/-! ## Blocks that do not look at the program counter -/

/-- States that differ at most in the program counter. -/
def Machine.Like (m m' : Machine μ) : Prop := ∃ pc, m' = { m with pc }

theorem Machine.Like.refl (m : Machine μ) : m.Like m := ⟨m.pc, rfl⟩

theorem Machine.Like.trans {m₁ m₂ m₃ : Machine μ} : m₁.Like m₂ → m₂.Like m₃ → m₁.Like m₃ := by
  rintro ⟨_, rfl⟩ ⟨pc, rfl⟩
  exact ⟨pc, rfl⟩

variable [SmirMemory μ]

/-- Executed at another program counter, the block carries on in the same state, or leaves with
the same exit. -/
def SmirBlock.PcFree (config : RunConfig) (block : SmirBlock μ) : Prop :=
  ∀ addrOf, ∀ m m' : Machine μ, m.Like m' → Outcome.Rel Eq Machine.Like
    (executeBlock config.env config.functions addrOf block m)
    (executeBlock config.env config.functions addrOf block m')

theorem runOps_append {env : Env} (ops ops' : List (SmirOp μ)) (m : Machine μ) :
    runOps env (ops ++ ops') m = match runOps env ops m with
      | .next m => runOps env ops' m
      | .exit reason m => .exit reason m := by
  induction ops generalizing m with
  | nil => rfl
  | cons op ops ih =>
    simp only [runOps, List.cons_append, runSeq] at ih ⊢
    cases exec env op m with
    | next m => exact ih m
    | exit reason m => rfl

section Absorb

variable {env : Env} {functions : FunctionId → Option Word} {addrOf : BlockId → Word}
  {config : RunConfig} {source target : SmirBlock μ} {id : BlockId}

/-- The two blocks one after the other, without the branch between them. -/
theorem executeBlock_absorb (m : Machine μ) :
    executeBlock env functions addrOf (source.absorb target) m =
      match runOps env source.ops m with
      | .next m => executeBlock env functions addrOf target m
      | .exit reason m => .exit reason m := by
  unfold executeBlock
  rw [SmirBlock.absorb, runOps_append]
  cases runOps env source.ops m <;> rfl

theorem executeBlock_branch (hbranch : source.terminator = .branch id) (m : Machine μ) :
    executeBlock env functions addrOf source m =
      match runOps env source.ops m with
      | .next m => .next { m with pc := addrOf id }
      | .exit reason m => .exit reason m := by
  unfold executeBlock
  rw [hbranch]
  rfl

theorem SmirBlock.PcFree.absorb (hsource : source.PcFree config) (htarget : target.PcFree config)
    (hbranch : source.terminator = .branch id) : (source.absorb target).PcFree config := by
  intro addrOf m m' hlike
  have hrel := hsource addrOf m m' hlike
  rw [executeBlock_branch hbranch, executeBlock_branch hbranch] at hrel
  rw [executeBlock_absorb, executeBlock_absorb]
  cases hops : runOps config.env source.ops m <;>
    cases hops' : runOps config.env source.ops m' <;> simp only [hops, hops'] at hrel ⊢
  case next.next m₁ m₂ =>
    obtain ⟨_, ⟨⟩, hsame⟩ := hrel.next_inv
    exact htarget addrOf m₁ m₂
      ⟨m₂.pc, congrArg (fun m : Machine μ => { m with pc := m₂.pc }) hsame.symm⟩
  case exit.exit => exact hrel
  all_goals cases hrel

end Absorb

section Steps

variable {config : RunConfig} {func : SmirFunction μ} {block : SmirBlock μ} {n : Nat}
  {count : Word} {m m' : Machine μ} {reason : ExitReason}

/-- A terminator that does not go to a block does not depend on its address. -/
theorem executeTerminator_of_ne {env : Env} {functions : FunctionId → Option Word}
    {addrOf addrOf' : BlockId → Word} {term : Terminator} {t : BlockId}
    (h : ∀ id, id ≠ t → addrOf' id = addrOf id)
    (hne : ∀ m', executeTerminator env functions addrOf m term = .next m' → m'.pc ≠ addrOf t) :
    executeTerminator env functions addrOf' m term =
      executeTerminator env functions addrOf m term := by
  have hgoto (id : BlockId) (hgo : executeTerminator env functions addrOf m term =
      .next { m with pc := addrOf id }) : addrOf' id = addrOf id := by
    refine h id ?_
    rintro rfl
    exact hne _ hgo rfl
  cases term with
  | branch | condBranch | switch => exact congrArg (executeTerminator.goto m) (hgoto _ rfl)
  | call target args continuation =>
    simp only [executeTerminator] at hgoto ⊢
    cases hcall : callAddress env functions m target with
    | some => rfl
    | none =>
      rw [hcall] at hgoto
      exact congrArg (executeTerminator.goto m) (hgoto _ rfl)
  | _ => rfl

theorem not_limit_of_run (hrun : run config func (n + 1) count m = some (reason, m'))
    (hreason : reason ≠ .insnLimit) : ¬ config.limit ≤ count := by
  intro hlimit
  simp only [run, hlimit, if_true] at hrun
  cases hrun
  exact hreason rfl

variable (hlimit : ¬ config.limit ≤ count) (hbreak : ∀ pc, config.breakpoint pc = false)

include hlimit hbreak

theorem run_of_none (hblock : func.blockAt m.pc = none) :
    run config func (n + 1) count m = some (.blockNotFound m.pc, m) := by
  simp [run, hlimit, hbreak, hblock]

theorem run_of_exit (hblock : func.blockAt m.pc = some block)
    (hexec : func.execute config block m = .exit reason m') :
    run config func (n + 1) count m = some (reason, m') := by
  simp [run, hlimit, hbreak, hblock, hexec]

theorem run_of_next (hblock : func.blockAt m.pc = some block)
    (hexec : func.execute config block m = .next m') (hsingle : config.singleStep = false) :
    run config func (n + 1) count m =
      run config func n (count + BitVec.ofNat 64 block.ops.length) m' := by
  simp [run, hlimit, hbreak, hblock, hexec, hsingle]

end Steps

/-! ## One merge -/

/-- What the pass relies on without checking it, for runs that nothing stops. -/
structure MergeSafe (config : RunConfig) (func : SmirFunction μ) : Prop where
  ids : func.DistinctIds
  addrs : func.DistinctAddrs
  /-- No block but the entry is empty and unreachable, as the leftovers of a merge are. -/
  kept : ∀ block ∈ func.blocks, retained func.entry block = true
  /-- The entry is never selected, and other selected targets are found. -/
  branches : ∀ block ∈ func.blocks, ∀ id, block.terminator = .branch id →
    id ≠ func.entry ∧ ∃ other ∈ func.blocks, other.id = id
  /-- Control comes to a block other than the entry along counted edges only. -/
  enters : ∀ block ∈ func.blocks, ∀ m m' : Machine μ,
    executeTerminator config.env config.functions func.addrOf m block.terminator = .next m' →
      ∀ other ∈ func.blocks, other.id ≠ func.entry → m'.pc = other.guestPc →
        other.id ∈ block.terminator.countedTargets
  pcFree : ∀ block ∈ func.blocks, block.id ≠ func.entry → block.PcFree config
  breakpoint : ∀ pc, config.breakpoint pc = false
  singleStep : config.singleStep = false

/-- A function after the block `target` was moved into `source`. -/
structure MergedAs (func func' : SmirFunction μ) (source target : SmirBlock μ) : Prop where
  source_mem : source ∈ func.blocks
  target_mem : target ∈ func.blocks
  branch : source.terminator = .branch target.id
  single : predCount func.blocks target.id = 1
  ne : target.id ≠ source.id
  entry : func'.entry = func.entry
  kept : ∀ block ∈ func'.blocks, retained func.entry block = true
  ids : func'.DistinctIds
  addrs : func'.DistinctAddrs
  mem : ∀ block, block ∈ func'.blocks ↔ block = source.absorb target ∨
    block ∈ func.blocks ∧ block.id ≠ source.id ∧ block.id ≠ target.id

theorem mergedAs_of_mergeRound {config : RunConfig} {func after : SmirFunction μ} {k : Nat}
    {frontiers : BlockId → Bool} (h : MergeSafe config func)
    (hround : mergeRound frontiers func = some (after, k)) :
    ∃ source target, MergedAs func after source target := by
  obtain ⟨⟨source, target⟩, hpair, hafter⟩ := Option.map_eq_some_iff.mp hround
  obtain ⟨block, hblock, hselect⟩ := List.exists_of_findSome?_eq_some hpair
  obtain ⟨id, hmerge, hids⟩ := Option.map_eq_some_iff.mp hselect
  obtain ⟨rfl, rfl⟩ : block.id = source ∧ id = target := by simpa using hids
  obtain ⟨hbranch, hsingle, hne, -⟩ := mergeTarget_eq_some_iff.mp hmerge
  obtain ⟨hentry, other, hother, rfl⟩ := h.branches block hblock id hbranch
  obtain ⟨i, j, hi, hj, hinto⟩ := mergeInto_of_getBlock (h.ids.getBlock_of_mem hblock)
    (h.ids.getBlock_of_mem hother)
  let change (b : SmirBlock μ) : SmirBlock μ :=
    if b.id = other.id then b.hollow else if b.id = block.id then b.absorb other else b
  have hblocks : mergedBlocks func.blocks i j other = func.blocks.map change := by
    refine List.ext_getElem? fun l => ?_
    -- Ids tell positions apart.
    have hindex (l' : Nat) (hlt : l' < func.blocks.length) :=
      List.getElem?_inj (j := l) (by simpa using hlt) h.ids
    have hi' := hindex i
    have hj' := hindex j
    grind [mergedBlocks]
  simp only [hinto, Prod.mk.injEq] at hafter
  obtain ⟨rfl, -⟩ := hafter
  refine ⟨block, other, hblock, hother, hbranch, hsingle, hne, rfl,
    fun b hb => (List.mem_filter.mp hb).2, distinctIds_of_mergeRound hround h.ids, ?_, fun b => ?_⟩
  · have haddrs : (mergedBlocks func.blocks i j other).map (·.guestPc) =
        func.blocks.map (·.guestPc) := by
      rw [mergedBlocks, map_modify_of_eq, map_modify_of_eq] <;> exact fun _ => rfl
    exact (List.filter_sublist.map _).nodup (haddrs ▸ h.addrs)
  · change b ∈ (mergedBlocks func.blocks i j other).filter (retained func.entry) ↔ _
    rw [hblocks, List.mem_filter, List.mem_map]
    constructor
    · rintro ⟨⟨b, hb, rfl⟩, hretained⟩
      by_cases htarget : b.id = other.id
      · simp [change, htarget, retained, SmirBlock.hollow, hentry] at hretained
      · by_cases hsource : b.id = block.id
        · obtain rfl := h.ids.eq_of_id_eq hb hblock hsource
          exact .inl (by simp [change, htarget])
        · simpa [change, htarget, hsource] using Or.inr hb
    · rintro (rfl | ⟨hb, hsource, htarget⟩)
      · refine ⟨⟨block, hblock, by simp [change, Ne.symm hne]⟩, ?_⟩
        have hkept := h.kept other hother
        simp only [retained, beq_eq_false_iff_ne.mpr hentry, Bool.false_or, SmirBlock.absorb,
          Bool.or_eq_true, Bool.not_eq_true', List.isEmpty_eq_false_iff] at hkept ⊢
        exact hkept.elim (fun hops => .inl (.inr (List.append_ne_nil_of_right_ne_nil _ hops))) .inr
      · exact ⟨⟨b, hb, by simp [change, hsource, htarget]⟩, h.kept b hb⟩

namespace MergedAs

open SmirFunction (blockAt_eq_some addrOf_of_mem addrOf_of_absent)

variable {config : RunConfig} {func func' : SmirFunction μ} {source target block : SmirBlock μ}
  {id : BlockId} {m m' : Machine μ} (hm : MergedAs func func' source target)
  (h : MergeSafe config func)

include hm

omit [SmirMemory μ] in
/-- Every block of the result has a terminator of another block than the source, and the id and
address of another block than the target. -/
theorem origin (hblock : block ∈ func'.blocks) :
    (∃ b ∈ func.blocks, b.id ≠ source.id ∧ b.terminator = block.terminator) ∧
      ∃ b ∈ func.blocks, b.id = block.id ∧ b.guestPc = block.guestPc := by
  rcases (hm.mem block).mp hblock with rfl | ⟨hmem, hsource, -⟩
  · exact ⟨⟨target, hm.target_mem, hm.ne, rfl⟩, source, hm.source_mem, rfl, rfl⟩
  · exact ⟨⟨block, hmem, hsource, rfl⟩, block, hmem, rfl, rfl⟩

omit [SmirMemory μ] in
/-- No other block has an edge to the target. -/
theorem not_mem_countedTargets (hblock : block ∈ func.blocks) (hne : block.id ≠ source.id) :
    target.id ∉ block.terminator.countedTargets := by
  intro hedge
  have hpos := List.count_pos_iff.mpr hedge
  have hone := hm.single
  have hsum := add_le_sum_map
    (f := fun b : SmirBlock μ => b.terminator.countedTargets.count target.id)
    hm.source_mem hblock fun heq => hne (heq ▸ rfl)
  simp only [hm.branch, Terminator.countedTargets_branch, List.count_singleton_self] at hsum
  unfold predCount at hone
  omega

include h

theorem target_ne_entry : target.id ≠ func.entry :=
  (h.branches source hm.source_mem _ hm.branch).1

/-- Control comes to the target from the source only. -/
theorem pc_ne_target (hblock : block ∈ func.blocks) (hne : block.id ≠ source.id)
    (hnext : executeTerminator config.env config.functions func.addrOf m block.terminator =
      .next m') : m'.pc ≠ target.guestPc := fun hpc =>
  hm.not_mem_countedTargets hblock hne
    (h.enters block hblock m m' hnext target hm.target_mem (hm.target_ne_entry h) hpc)

theorem survives (hblock : block ∈ func.blocks) (hne : block.id ≠ target.id) :
    ∃ b ∈ func'.blocks, b.id = block.id ∧ b.guestPc = block.guestPc := by
  by_cases hsource : block.id = source.id
  · obtain rfl := h.ids.eq_of_id_eq hblock hm.source_mem hsource
    exact ⟨block.absorb target, (hm.mem _).mpr (.inl rfl), rfl, rfl⟩
  · exact ⟨block, (hm.mem _).mpr (.inr ⟨hblock, hsource, hne⟩), rfl, rfl⟩

theorem addrOf_eq (hid : id ≠ target.id) : func'.addrOf id = func.addrOf id := by
  by_cases hexists : ∃ b ∈ func.blocks, b.id = id
  · obtain ⟨b, hb, rfl⟩ := hexists
    obtain ⟨b', hb', hid', haddr⟩ := hm.survives h hb hid
    rw [addrOf_of_mem h.ids hb, ← hid', ← haddr]
    exact addrOf_of_mem hm.ids hb'
  · push Not at hexists
    rw [addrOf_of_absent hexists, addrOf_of_absent]
    intro b hb
    obtain ⟨c, hc, hcid, -⟩ := (hm.origin hb).2
    exact hcid ▸ hexists c hc

theorem executeTerminator_eq (hblock : block ∈ func.blocks) (hne : block.id ≠ source.id)
    (m : Machine μ) :
    executeTerminator config.env config.functions func'.addrOf m block.terminator =
      executeTerminator config.env config.functions func.addrOf m block.terminator := by
  refine executeTerminator_of_ne (fun id => hm.addrOf_eq h) fun m' hnext => ?_
  rw [addrOf_of_mem h.ids hm.target_mem]
  exact hm.pc_ne_target h hblock hne hnext

theorem execute_eq (hblock : block ∈ func.blocks) (hne : block.id ≠ source.id) (m : Machine μ) :
    func'.execute config block m = func.execute config block m := by
  unfold SmirFunction.execute executeBlock
  cases runOps config.env block.ops m with
  | exit reason m' => rfl
  | next m' => exact hm.executeTerminator_eq h hblock hne m'

theorem pc_ne_target_of_execute (hblock : block ∈ func.blocks) (hne : block.id ≠ source.id)
    (hnext : func.execute config block m = .next m') : m'.pc ≠ target.guestPc := by
  unfold SmirFunction.execute executeBlock at hnext
  cases hops : runOps config.env block.ops m with
  | exit reason m₁ => simp [hops] at hnext
  | next m₁ => exact hm.pc_ne_target h hblock hne (by simpa [hops] using hnext)

theorem execute_absorb (hnext : func.execute config source m = .next m') :
    m'.pc = target.guestPc ∧ Outcome.Rel Eq Machine.Like
      (func.execute config target m') (func'.execute config (source.absorb target) m) := by
  have hexec := hm.execute_eq h hm.target_mem hm.ne
  have haddr := addrOf_of_mem h.ids hm.target_mem
  unfold SmirFunction.execute at hnext hexec ⊢
  rw [executeBlock_branch hm.branch] at hnext
  rw [executeBlock_absorb]
  cases hops : runOps config.env source.ops m with
  | exit reason m₁ => simp [hops] at hnext
  | next m₁ =>
    obtain rfl : { m₁ with pc := func.addrOf target.id } = m' := by simpa [hops] using hnext
    refine ⟨haddr, ?_⟩
    rw [← hexec]
    exact h.pcFree target hm.target_mem (hm.target_ne_entry h) _ _ _ ⟨m₁.pc, rfl⟩

omit h in
theorem execute_absorb_exit {reason : ExitReason}
    (hexit : func.execute config source m = .exit reason m') :
    func'.execute config (source.absorb target) m = .exit reason m' := by
  unfold SmirFunction.execute at hexit ⊢
  rw [executeBlock_branch hm.branch] at hexit
  rw [executeBlock_absorb]
  cases hops : runOps config.env source.ops m with
  | exit reason m₁ => simpa [hops] using hexit
  | next m₁ => simp [hops] at hexit

omit [SmirMemory μ] h in
theorem blockAt_none {pc : Word} (hnone : func.blockAt pc = none) : func'.blockAt pc = none := by
  simp only [SmirFunction.blockAt, List.find?_eq_none, List.mem_reverse] at hnone ⊢
  intro b hb
  obtain ⟨-, c, hc, -, haddr⟩ := hm.origin hb
  exact haddr ▸ hnone c hc

/-- What the pass relies on holds again after a merge. -/
theorem safe : MergeSafe config func' where
  ids := hm.ids
  addrs := hm.addrs
  kept block hblock := hm.entry ▸ hm.kept block hblock
  branches block hblock id hbranch := by
    obtain ⟨⟨b, hb, hne, hterm⟩, -⟩ := hm.origin hblock
    obtain ⟨hentry, other, hother, rfl⟩ := h.branches b hb id (hterm.trans hbranch)
    have htarget : other.id ≠ target.id := fun heq =>
      hm.not_mem_countedTargets hb hne (by simp [hterm, hbranch, heq])
    obtain ⟨b', hb', hid, -⟩ := hm.survives h hother htarget
    exact ⟨hm.entry ▸ hentry, b', hb', hid⟩
  enters block hblock m m' hnext other hother hentry hpc := by
    obtain ⟨⟨b, hb, hne, hterm⟩, -⟩ := hm.origin hblock
    obtain ⟨-, c, hc, hid, haddr⟩ := hm.origin hother
    rw [← hterm, hm.executeTerminator_eq h hb hne] at hnext
    rw [← hterm, ← hid]
    exact h.enters b hb m m' hnext c hc (hid ▸ hm.entry ▸ hentry) (hpc.trans haddr.symm)
  pcFree block hblock hentry := by
    rw [hm.entry] at hentry
    rcases (hm.mem block).mp hblock with rfl | ⟨hmem, -, -⟩
    · exact (h.pcFree source hm.source_mem hentry).absorb
        (h.pcFree target hm.target_mem (hm.target_ne_entry h)) hm.branch
    · exact h.pcFree block hmem hentry
  breakpoint := h.breakpoint
  singleStep := h.singleStep

/-- A run that does not start at the target is also a run of the result. -/
theorem run_simulated {reason : ExitReason} (hreason : reason ≠ .insnLimit) {n : Nat}
    {count : Word} (hpc : m.pc ≠ target.guestPc)
    (hrun : run config func n count m = some (reason, m')) :
    ∃ n' ≤ n, ∃ m'', run config func' n' count m = some (reason, m'') ∧ m'.Like m'' := by
  -- One or two steps of the original are answered by one step of the result.
  induction n using Nat.strong_induction_on generalizing count m with
  | h n ih =>
  cases n with
  | zero => cases hrun
  | succ n =>
  have hlimit := not_limit_of_run hrun hreason
  have hbreak := h.breakpoint
  cases hblock : func.blockAt m.pc with
  | none =>
    rw [run_of_none hlimit hbreak hblock] at hrun
    cases hrun
    exact ⟨1, by omega, _, run_of_none hlimit hbreak (hm.blockAt_none hblock), .refl _⟩
  | some block =>
  obtain ⟨hmem, haddr⟩ := (blockAt_eq_some h.addrs).mp hblock
  by_cases hsource : block.id = source.id
  · obtain rfl := h.ids.eq_of_id_eq hmem hm.source_mem hsource
    have hblock' : func'.blockAt m.pc = some (block.absorb target) :=
      (blockAt_eq_some hm.addrs).mpr ⟨(hm.mem _).mpr (.inl rfl), haddr⟩
    cases hexec : func.execute config block m with
    | exit reason₁ m₁ =>
      rw [run_of_exit hlimit hbreak hblock hexec] at hrun
      cases hrun
      exact ⟨1, by omega, _, run_of_exit hlimit hbreak hblock' (hm.execute_absorb_exit hexec),
        .refl _⟩
    | next m₁ =>
      obtain ⟨hpc₁, hrel⟩ := hm.execute_absorb h hexec
      rw [run_of_next hlimit hbreak hblock hexec h.singleStep] at hrun
      cases n with
      | zero => cases hrun
      | succ n =>
      have hlimit₁ := not_limit_of_run hrun hreason
      have hblock₁ : func.blockAt m₁.pc = some target :=
        (blockAt_eq_some h.addrs).mpr ⟨hm.target_mem, hpc₁.symm⟩
      cases hexec₁ : func.execute config target m₁ with
      | exit reason₁ m₂ =>
        rw [run_of_exit hlimit₁ hbreak hblock₁ hexec₁] at hrun
        cases hrun
        rw [hexec₁] at hrel
        obtain ⟨m'', hexec', hlike⟩ := hrel.exit_inv
        exact ⟨1, by omega, m'', run_of_exit hlimit hbreak hblock' hexec', hlike⟩
      | next m₂ =>
        rw [run_of_next hlimit₁ hbreak hblock₁ hexec₁ h.singleStep] at hrun
        rw [hexec₁] at hrel
        obtain ⟨m'', hexec', rfl⟩ := hrel.next_inv
        obtain ⟨n', hn', m₃, hrun', hlike⟩ := ih n (by omega)
          (hm.pc_ne_target_of_execute h hm.target_mem hm.ne hexec₁) hrun
        refine ⟨n' + 1, by omega, m₃, ?_, hlike⟩
        rw [run_of_next hlimit hbreak hblock' hexec' h.singleStep]
        simpa [SmirBlock.absorb, BitVec.ofNat_add, BitVec.add_assoc] using hrun'
  · have htarget : block.id ≠ target.id := by
      intro hid
      obtain rfl := h.ids.eq_of_id_eq hmem hm.target_mem hid
      exact hpc haddr.symm
    have hblock' := (blockAt_eq_some hm.addrs).mpr
      ⟨(hm.mem _).mpr (.inr ⟨hmem, hsource, htarget⟩), haddr⟩
    have hsame := hm.execute_eq h hmem hsource m
    cases hexec : func.execute config block m with
    | exit reason₁ m₁ =>
      rw [run_of_exit hlimit hbreak hblock hexec] at hrun
      cases hrun
      exact ⟨1, by omega, _, run_of_exit hlimit hbreak hblock' (hsame.trans hexec), .refl _⟩
    | next m₁ =>
      rw [run_of_next hlimit hbreak hblock hexec h.singleStep] at hrun
      obtain ⟨n', hn', m'', hrun', hlike⟩ := ih n (by omega)
        (hm.pc_ne_target_of_execute h hmem hsource hexec) hrun
      refine ⟨n' + 1, by omega, m'', ?_, hlike⟩
      rw [run_of_next hlimit hbreak hblock' (hsame.trans hexec) h.singleStep]
      exact hrun'

end MergedAs

/-! ## All merges -/

section Merged

variable {config : RunConfig} {func merged : SmirFunction μ} (h : MergeSafe config func)
  {m m' : Machine μ} {reason : ExitReason} {fuel k n : Nat} {count : Word}
  (hstart : ∀ block ∈ func.blocks, block.id ≠ func.entry → m.pc ≠ block.guestPc)
  (hrun : run config func n count m = some (reason, m')) (hreason : reason ≠ .insnLimit)

include h hstart hrun hreason

theorem run_of_mergeLoop {frontiers : BlockId → Bool} {k' : Nat}
    (hmerge : mergeLoop frontiers fuel func k = some (merged, k')) :
    ∃ n' ≤ n, ∃ m'', run config merged n' count m = some (reason, m'') ∧ m'.Like m'' := by
  induction fuel generalizing func k n m' with
  | zero => cases hmerge
  | succ fuel ih =>
    rw [mergeLoop] at hmerge
    cases hround : mergeRound frontiers func with
    | none =>
      rw [hround] at hmerge
      cases hmerge
      exact ⟨n, le_rfl, m', hrun, .refl m'⟩
    | some result =>
      rw [hround] at hmerge
      obtain ⟨source, target, hm⟩ := mergedAs_of_mergeRound h hround
      obtain ⟨n₁, hn₁, m₁, hrun₁, hlike₁⟩ := hm.run_simulated h hreason
        (hstart target hm.target_mem (hm.target_ne_entry h)) hrun
      have hstart₁ : ∀ block ∈ result.1.blocks, block.id ≠ result.1.entry →
          m.pc ≠ block.guestPc := by
        intro block hblock hentry
        obtain ⟨-, c, hc, hid, haddr⟩ := hm.origin hblock
        exact haddr ▸ hstart c hc (hid ▸ hm.entry ▸ hentry)
      obtain ⟨n₂, hn₂, m₂, hrun₂, hlike₂⟩ := ih (hm.safe h) hstart₁ hrun₁ hmerge
      exact ⟨n₂, hn₂.trans hn₁, m₂, hrun₂, hlike₁.trans hlike₂⟩

/-- A run of a function from its entry, or from outside, that does not end at the instruction limit
is a run of the merged function: the exit is the same, no more blocks are executed, and the state
differs at most in the program counter. -/
theorem blockMerging_keeps_runs (hmerge : blockMerging fuel func = some (merged, k)) :
    ∃ n' ≤ n, ∃ m'', run config merged n' count m = some (reason, m'') ∧ m'.Like m'' := by
  unfold blockMerging at hmerge
  split at hmerge
  · cases hmerge
    exact ⟨n, le_rfl, m', hrun, .refl m'⟩
  · exact run_of_mergeLoop h hstart hrun hreason hmerge

end Merged

/-- Two blocks that become one. -/
def straightLine : SmirFunction FlatMemory where
  entry := 0
  blocks :=
    [ { id := 0, guestPc := 0, ops := [⟨0, .not .rax .rax .w64, false⟩], terminator := .branch 1 },
      { id := 1, guestPc := 3, terminator := .trap .halt } ]

theorem straightLine_mergeSafe : MergeSafe { env := ⟨.x86, .x86_64, {}⟩ } straightLine where
  ids := by decide
  addrs := by simp [straightLine, SmirFunction.DistinctAddrs]
  kept := by decide
  branches := by simp [straightLine]
  enters := by
    intro block hblock m m' hnext other hother hentry hpc
    rcases List.mem_pair.mp hblock with rfl | rfl
    · rcases List.mem_pair.mp hother with rfl | rfl
      · exact absurd rfl hentry
      · exact List.mem_singleton_self _
    · cases hnext
  pcFree := by
    intro block hblock hentry addrOf m m' hlike
    rcases List.mem_pair.mp hblock with rfl | rfl
    · exact absurd rfl hentry
    · exact .exit hlike
  breakpoint _ := rfl
  singleStep := rfl

theorem straightLine_halts_merged : ∃ merged m',
    blockMerging 2 straightLine = some (merged, 1) ∧
    run { env := ⟨.x86, .x86_64, {}⟩ } straightLine 2 0 Machine.blank = some (.halt, m') ∧
    ∃ n' ≤ 2, ∃ m'', run { env := ⟨.x86, .x86_64, {}⟩ } merged n' 0 Machine.blank =
      some (.halt, m'') ∧ m'.Like m'' :=
  ⟨_, _, rfl, rfl, blockMerging_keeps_runs straightLine_mergeSafe
    (by simp [straightLine, Machine.blank]) rfl nofun
    (rfl : blockMerging 2 straightLine = some (_, 1))⟩

end Rax.Smir

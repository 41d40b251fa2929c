import Rax.Lib.GenKill
import Rax.Smir.Function
import Rax.Smir.Optimize.Tables

/-!
# Liveness

`compute_liveness` of `smir/optimize/liveness.rs`: backward rounds over the blocks of a
function, at most two more than there are blocks. Registers and flags are kept under the id
of a block. When ids are distinct the rounds are sweeps of a backward analysis with one
transfer function per block, and they stop at a solution within the limit.
-/

namespace Rax.Smir

open Function

variable {μ : Type}

/-- Live registers and flags at one point. -/
structure Live where
  regs : Finset VReg := ∅
  flags : FlagSet := ∅
  deriving DecidableEq

namespace Live

instance : LE Live := ⟨fun a b => a.regs ⊆ b.regs ∧ a.flags ⊆ b.flags⟩

def join (a b : Live) : Live := ⟨a.regs ∪ b.regs, a.flags ∪ b.flags⟩

/-- Live registers and flags as one set. -/
def facts (live : Live) : Set (VReg ⊕ Flag) :=
  {f | f.elim (· ∈ live.regs) (· ∈ live.flags)}

@[simp] theorem inl_mem_facts {live : Live} {r : VReg} :
    .inl r ∈ live.facts ↔ r ∈ live.regs := Iff.rfl

@[simp] theorem inr_mem_facts {live : Live} {f : Flag} :
    .inr f ∈ live.facts ↔ f ∈ live.flags := Iff.rfl

theorem le_iff {a b : Live} : a ≤ b ↔ a.facts ⊆ b.facts := by
  constructor
  · rintro ⟨hregs, hflags⟩ (r | f) h
    · exact hregs h
    · exact hflags h
  · intro h
    exact ⟨fun r hr => h (a := .inl r) hr, fun f hf => h (a := .inr f) hf⟩

theorem facts_injective : Injective facts := by
  intro a b h
  have hmem (x : VReg ⊕ Flag) : x ∈ a.facts ↔ x ∈ b.facts := by rw [h]
  obtain ⟨regsA, flagsA⟩ := a
  obtain ⟨regsB, flagsB⟩ := b
  congr 1
  · ext r
    exact hmem (.inl r)
  · ext f
    exact hmem (.inr f)

@[simp] theorem facts_join (a b : Live) : (a.join b).facts = a.facts ∪ b.facts := by
  ext (r | f) <;> simp [join]

theorem facts_empty : ({} : Live).facts = ∅ := by
  ext (r | f) <;> simp

end Live

/-- What is live before an operation. -/
def OpKind.stepBack (regs : Finset VReg) (kind : OpKind μ) (live : Live) : Live :=
  let full := kind.fullyDefines
  let kept := if full then live.regs \ kind.dests.toFinset else live.regs
  let used := kept ∪ kind.sourceVregs.toFinset
  -- A write that merges reads its destination.
  let merged := if full then used else used ∪ kind.dests.toFinset
  let flags := (live.flags \ kind.flagsMustWrite) ∪ kind.flagsRead
  -- A guard may leave for the interpreter, which sees every register.
  if kind.hasPreciseDeoptEdge then ⟨merged ∪ regs, flags ∪ FlagSet.allX86⟩
  else ⟨merged, flags⟩

/-- `block_transfer`. -/
def blockTransfer (block : SmirBlock μ) (regs : Finset VReg) (live : Live) : Live :=
  block.ops.foldr (fun op => op.kind.stepBack regs) live

/-- The architectural registers that occur in the function. -/
def regUniverse (func : SmirFunction μ) : Finset VReg :=
  let noted (block : SmirBlock μ) :=
    (block.ops.flatMap fun op => op.kind.dests ++ op.kind.sourceVregs) ++
      block.terminator.regUses
  ((func.blocks.flatMap noted).filter VReg.isArch).toFinset

/-- `terminator_is_exit`. -/
def terminatorIsExit (func : SmirFunction μ) (term : Terminator) : Bool :=
  let inFunc (id : BlockId) := func.blocks.any (·.id == id)
  match term with
  | .branch target => !inFunc target
  | .condBranch _ trueTarget falseTarget => !inFunc trueTarget || !inFunc falseTarget
  | .switch _ targets default => !inFunc default || targets.any (!inFunc ·)
  | _ => true

/-- All that is live where control leaves the function. -/
def exitLive (func : SmirFunction μ) : Live := ⟨regUniverse func, FlagSet.allX86⟩

/-- What is live at the end of a block, from what is live at the start of its successors. -/
def liveOut (func : SmirFunction μ) (liveIn : BlockId → Live) (block : SmirBlock μ) : Live :=
  let exit := if terminatorIsExit func block.terminator then exitLive func else {}
  let joined := block.terminator.successors.foldl (fun live s => live.join (liveIn s)) exit
  joined.join { regs := block.terminator.regUses.toFinset }

/-- What is live at the start of a block. -/
def liveInto (func : SmirFunction μ) (liveIn : BlockId → Live) (block : SmirBlock μ) : Live :=
  blockTransfer block (regUniverse func) (liveOut func liveIn block)

/-- Recompute one block, and note a change. The maps start with an empty entry for each
block, and an id without a block stays empty. -/
def visitBlock (func : SmirFunction μ) (s : (BlockId → Live) × Bool) (block : SmirBlock μ) :
    (BlockId → Live) × Bool :=
  if s.1 block.id ≠ liveInto func s.1 block then
    (update s.1 block.id (liveInto func s.1 block), true)
  else s

def livenessRound (func : SmirFunction μ) (liveIn : BlockId → Live) :
    (BlockId → Live) × Bool :=
  func.blocks.foldl (visitBlock func) (liveIn, false)

/-- At most `n` rounds, and whether the last one changed nothing. -/
def livenessRounds (func : SmirFunction μ) : Nat → (BlockId → Live) → (BlockId → Live) × Bool
  | 0, liveIn => (liveIn, false)
  | n + 1, liveIn =>
    let (liveIn, changed) := livenessRound func liveIn
    if changed then livenessRounds func n liveIn else (liveIn, true)

/-- The rounds of `compute_liveness`. -/
def liveIns (func : SmirFunction μ) : (BlockId → Live) × Bool :=
  livenessRounds func (func.blocks.length + 2) fun _ => {}

/-- Insert the set at the end of a block. -/
def insertOut (func : SmirFunction μ) (liveIn : BlockId → Live) (out : BlockId → Option Live)
    (block : SmirBlock μ) : BlockId → Option Live :=
  update out block.id (some (liveOut func liveIn block))

/-- `compute_liveness`: the sets at the end of each block. -/
def computeLiveness (func : SmirFunction μ) : BlockId → Option Live :=
  func.blocks.foldl (insertOut func (liveIns func).1) fun _ => none

/-- The rounds stop because nothing changes any more, and then the sets at the end of each
block contain those at the start of its successors and what an exit makes live, and the set
at its start is what the block makes of the set at its end. -/
structure LivenessSolved (func : SmirFunction μ) : Prop where
  stops : (liveIns func).2 = true
  solves : ∀ block ∈ func.blocks, ∃ out, computeLiveness func block.id = some out ∧
    (∀ s ∈ block.terminator.successors, (liveIns func).1 s ≤ out) ∧
    (terminatorIsExit func block.terminator = true → exitLive func ≤ out) ∧
    blockTransfer block (regUniverse func) out = (liveIns func).1 block.id

section Analysis

/-- The transfer function of one operation. -/
def OpKind.genKill (regs : Finset VReg) (kind : OpKind μ) : GenKill (VReg ⊕ Flag) where
  gen := Live.facts
    { regs := kind.sourceVregs.toFinset ∪ (if kind.fullyDefines then ∅ else kind.dests.toFinset)
        ∪ if kind.hasPreciseDeoptEdge then regs else ∅
      flags := kind.flagsRead ∪ if kind.hasPreciseDeoptEdge then FlagSet.allX86 else ∅ }
  kill := Live.facts
    { regs := if kind.fullyDefines then kind.dests.toFinset else ∅
      flags := kind.flagsMustWrite }

theorem facts_stepBack (regs : Finset VReg) (kind : OpKind μ) (live : Live) :
    (kind.stepBack regs live).facts = (kind.genKill regs).apply live.facts := by
  ext (r | f)
  all_goals
    unfold OpKind.stepBack
    simp only [OpKind.genKill, GenKill.apply, Set.mem_union, Set.mem_sdiff]
    cases kind.fullyDefines <;> cases kind.hasPreciseDeoptEdge <;> simp <;> tauto

/-- The transfer function of a block. -/
def SmirBlock.genKill (block : SmirBlock μ) (regs : Finset VReg) : GenKill (VReg ⊕ Flag) :=
  block.ops.foldr (fun op t => (op.kind.genKill regs).comp t) GenKill.id

theorem facts_blockTransfer (block : SmirBlock μ) (regs : Finset VReg) (live : Live) :
    (blockTransfer block regs live).facts = (block.genKill regs).apply live.facts := by
  rw [blockTransfer, SmirBlock.genKill]
  induction block.ops with
  | nil => exact (GenKill.id_apply _).symm
  | cons op ops ih =>
    rw [List.foldr_cons, List.foldr_cons, facts_stepBack, ih, GenKill.comp_apply]

/-- The analysis that `compute_liveness` solves. -/
def livenessAnalysis (func : SmirFunction μ) : Backward (SmirBlock μ) BlockId (VReg ⊕ Flag) where
  nodes := func.blocks
  key := (·.id)
  succ block := block.terminator.successors
  base block :=
    (if terminatorIsExit func block.terminator then exitLive func else {}).facts ∪
      Live.facts { regs := block.terminator.regUses.toFinset }
  transfer block := block.genKill (regUniverse func)

variable {func : SmirFunction μ} {liveIn : BlockId → Live} {block : SmirBlock μ}

theorem facts_foldl_join (ids : List BlockId) (live : Live) :
    (ids.foldl (fun live s => live.join (liveIn s)) live).facts =
      live.facts ∪ {f | ∃ s ∈ ids, f ∈ (liveIn s).facts} := by
  induction ids generalizing live with
  | nil => simp
  | cons s ids ih =>
    rw [List.foldl_cons, ih, Live.facts_join, Set.union_assoc]
    congr 1
    ext f
    simp

theorem facts_liveOut : (liveOut func liveIn block).facts =
    (livenessAnalysis func).out (fun id => (liveIn id).facts) block := by
  rw [liveOut, Live.facts_join, facts_foldl_join]
  exact Set.union_right_comm _ _ _

theorem facts_liveInto : (liveInto func liveIn block).facts =
    (livenessAnalysis func).into (fun id => (liveIn id).facts) block := by
  rw [liveInto, facts_blockTransfer, facts_liveOut]
  rfl

/-- Whether a visit notes a change or not, it leaves the recomputed set. -/
theorem visitBlock_fst (s : (BlockId → Live) × Bool) :
    (visitBlock func s block).1 = update s.1 block.id (liveInto func s.1 block) := by
  unfold visitBlock
  split
  · rfl
  · next h => rw [← not_not.mp h, update_eq_self]

theorem facts_visitBlock (s : (BlockId → Live) × Bool) :
    Live.facts ∘ (visitBlock func s block).1 =
      (livenessAnalysis func).visit (Live.facts ∘ s.1) block := by
  rw [visitBlock_fst, comp_update, facts_liveInto]
  rfl

theorem facts_livenessRound : Live.facts ∘ (livenessRound func liveIn).1 =
    (livenessAnalysis func).sweep (Live.facts ∘ liveIn) := by
  have hfold (blocks : List (SmirBlock μ)) (s : (BlockId → Live) × Bool) :
      Live.facts ∘ (blocks.foldl (visitBlock func) s).1 =
        blocks.foldl (livenessAnalysis func).visit (Live.facts ∘ s.1) := by
    induction blocks generalizing s with
    | nil => rfl
    | cons block blocks ih => rw [List.foldl_cons, List.foldl_cons, ih, facts_visitBlock]
  exact hfold func.blocks (liveIn, false)

/-- Every set is what its block makes of the sets of its successors. -/
def LiveInSolved (func : SmirFunction μ) (liveIn : BlockId → Live) : Prop :=
  ∀ block ∈ func.blocks, liveIn block.id = liveInto func liveIn block

theorem visitBlock_of_eq {s : (BlockId → Live) × Bool}
    (h : s.1 block.id = liveInto func s.1 block) : visitBlock func s block = s :=
  if_neg (not_not.mpr h)

theorem livenessRound_of_solved (h : LiveInSolved func liveIn) :
    livenessRound func liveIn = (liveIn, false) := by
  have hfold (blocks : List (SmirBlock μ))
      (hblocks : ∀ block ∈ blocks, liveIn block.id = liveInto func liveIn block) :
      blocks.foldl (visitBlock func) (liveIn, false) = (liveIn, false) := by
    induction blocks with
    | nil => rfl
    | cons block blocks ih =>
      obtain ⟨hblock, hblocks⟩ := List.forall_mem_cons.mp hblocks
      rw [List.foldl_cons, visitBlock_of_eq hblock, ih hblocks]
  exact hfold func.blocks h

/-- A round that notes no change started at a solution. -/
theorem liveInSolved_of_unchanged (h : (livenessRound func liveIn).2 = false) :
    LiveInSolved func liveIn := by
  have hfold (blocks : List (SmirBlock μ)) (s : (BlockId → Live) × Bool)
      (h : (blocks.foldl (visitBlock func) s).2 = false) :
      s.2 = false ∧ ∀ block ∈ blocks, s.1 block.id = liveInto func s.1 block := by
    induction blocks generalizing s with
    | nil => exact ⟨h, by simp⟩
    | cons block blocks ih =>
      obtain ⟨hfalse, hblocks⟩ := ih _ h
      by_cases hblock : s.1 block.id = liveInto func s.1 block
      · rw [visitBlock_of_eq hblock] at hfalse hblocks
        exact ⟨hfalse, List.forall_mem_cons.mpr ⟨hblock, hblocks⟩⟩
      · rw [visitBlock, if_pos hblock] at hfalse
        cases hfalse
  exact (hfold func.blocks _ h).2

theorem liveInSolved_iff :
    LiveInSolved func liveIn ↔ (livenessAnalysis func).Solution (Live.facts ∘ liveIn) := by
  refine forall₂_congr fun block _ => ?_
  rw [← Live.facts_injective.eq_iff, facts_liveInto]
  exact eq_comm

theorem livenessRounds_succ_changed {n : Nat} (h : (livenessRound func liveIn).2 = true) :
    livenessRounds func (n + 1) liveIn = livenessRounds func n (livenessRound func liveIn).1 :=
  if_pos h

theorem livenessRounds_succ_unchanged {n : Nat} (h : (livenessRound func liveIn).2 = false) :
    livenessRounds func (n + 1) liveIn = (liveIn, true) := by
  rw [livenessRounds, livenessRound_of_solved (liveInSolved_of_unchanged h)]
  rfl

/-- Rounds that end because nothing changes end at a solution. -/
theorem liveInSolved_of_livenessRounds {n : Nat} (h : (livenessRounds func n liveIn).2 = true) :
    LiveInSolved func (livenessRounds func n liveIn).1 := by
  induction n generalizing liveIn with
  | zero => cases h
  | succ n ih =>
    cases hchanged : (livenessRound func liveIn).2 with
    | true =>
      rw [livenessRounds_succ_changed hchanged] at h ⊢
      exact ih h
    | false =>
      rw [livenessRounds_succ_unchanged hchanged]
      exact liveInSolved_of_unchanged hchanged

/-- Rounds end so when one of them, within the limit, starts at a solution. -/
theorem livenessRounds_stops {n k : Nat} (hk : k < n)
    (h : LiveInSolved func ((fun liveIn => (livenessRound func liveIn).1)^[k] liveIn)) :
    (livenessRounds func n liveIn).2 = true := by
  induction n generalizing k liveIn with
  | zero => omega
  | succ n ih =>
    cases hchanged : (livenessRound func liveIn).2 with
    | false => rw [livenessRounds_succ_unchanged hchanged]
    | true =>
      rw [livenessRounds_succ_changed hchanged]
      cases k with
      | zero =>
        rw [iterate_zero, id] at h
        rw [livenessRound_of_solved h] at hchanged
        cases hchanged
      | succ k => exact ih (Nat.lt_of_succ_lt_succ hk) h

/-- With distinct ids the rounds end within the limit. -/
theorem liveIns_stops (hids : func.DistinctIds) : (liveIns func).2 = true := by
  have hfacts (k : Nat) : Live.facts ∘ (fun liveIn => (livenessRound func liveIn).1)^[k]
      (fun _ => {}) = (livenessAnalysis func).sweep^[k] fun _ => ∅ := by
    induction k with
    | zero =>
      funext id
      exact Live.facts_empty
    | succ k ih => rw [iterate_succ_apply', iterate_succ_apply', facts_livenessRound, ih]
  have hsolution := Backward.solution_sweep_iterate (A := livenessAnalysis func) hids
  rw [← hfacts] at hsolution
  exact livenessRounds_stops (Nat.lt_add_of_pos_right Nat.two_pos) (liveInSolved_iff.mpr hsolution)

/-- Of blocks with distinct ids, each finds its own set. -/
theorem computeLiveness_of_mem (hids : func.DistinctIds) (hblock : block ∈ func.blocks) :
    computeLiveness func block.id = some (liveOut func (liveIns func).1 block) := by
  -- The entry is written at the block and not overwritten by those after it.
  have hfold (blocks : List (SmirBlock μ)) (out : BlockId → Option Live)
      (hids : (blocks.map (·.id)).Nodup) (hblock : block ∈ blocks ∨
        (∀ other ∈ blocks, block.id ≠ other.id) ∧
          out block.id = some (liveOut func (liveIns func).1 block)) :
      blocks.foldl (insertOut func (liveIns func).1) out block.id =
        some (liveOut func (liveIns func).1 block) := by
    induction blocks generalizing out with
    | nil => exact (hblock.resolve_left List.not_mem_nil).2
    | cons first blocks ih =>
      obtain ⟨hfirst, hids⟩ := List.nodup_cons.mp hids
      refine ih _ hids ?_
      rcases hblock with hmem | ⟨hne, hout⟩
      · rcases List.mem_cons.mp hmem with rfl | hmem
        · have hne : ∀ other ∈ blocks, block.id ≠ other.id := fun other hother heq =>
            hfirst (List.mem_map.mpr ⟨other, hother, heq.symm⟩)
          exact .inr ⟨hne, update_self ..⟩
        · exact .inl hmem
      · obtain ⟨hne', hne⟩ := List.forall_mem_cons.mp hne
        exact .inr ⟨hne, (update_of_ne hne' _ _).trans hout⟩
  exact hfold func.blocks _ hids (.inl hblock)

/-- Functions with distinct block ids are solved within the round limit. -/
theorem livenessSolved_of_distinctIds (hids : func.DistinctIds) : LivenessSolved func where
  stops := liveIns_stops hids
  solves block hblock := by
    have hsolved := liveInSolved_of_livenessRounds (liveIns_stops hids)
    have hout : (liveOut func (liveIns func).1 block).facts =
        (livenessAnalysis func).out (Live.facts ∘ (liveIns func).1) block := facts_liveOut
    refine ⟨_, computeLiveness_of_mem hids hblock, fun s hs => ?_, fun hexit => ?_,
      (hsolved block hblock).symm⟩
    · rw [Live.le_iff, hout]
      exact fun f hf => .inr ⟨s, hs, hf⟩
    · rw [Live.le_iff, hout]
      refine fun f hf => .inl (.inl ?_)
      rwa [if_pos hexit]

/-- A loop whose two blocks set and use RAX. -/
def countingLoop : SmirFunction Unit where
  entry := 0
  blocks :=
    [ { id := 0, guestPc := 0x1000, ops := [⟨0x1000, .mov .rax (.imm 3) .w64, false⟩],
        terminator := .branch 1 },
      { id := 1, guestPc := 0x1004, ops := [⟨0x1004, .sub .rax .rax (.imm 1) .w64 .all, false⟩],
        terminator := .condBranch .rax 1 0 } ]

theorem countingLoop_livenessSolved : countingLoop.DistinctIds ∧ LivenessSolved countingLoop :=
  ⟨by decide, livenessSolved_of_distinctIds (by decide)⟩

/-- Two blocks with one id: the first sets RAX, the second is empty, and both return. -/
def twinBlocks : SmirFunction Unit where
  entry := 0
  blocks :=
    [ { id := 0, guestPc := 0x1000, ops := [⟨0x1000, .mov .rax (.imm 3) .w64, false⟩],
        terminator := .ret [] },
      { id := 0, guestPc := 0x1004, terminator := .ret [] } ]

/-- Every round changes the entry of the twins twice. It ends with the set of the second, at
whose start RAX is live; before the first block it is dead. -/
theorem twinBlocks_not_livenessSolved : ¬ LivenessSolved twinBlocks := by
  intro h
  obtain ⟨out, hout, -, -, htransfer⟩ := h.solves _ List.mem_cons_self
  have hends : computeLiveness twinBlocks 0 = some ⟨{.rax}, FlagSet.allX86⟩ := by decide
  have hstarts : VReg.rax ∈ ((liveIns twinBlocks).1 0).regs := by decide
  obtain rfl := Option.some.inj (hends.symm.trans hout)
  rw [← htransfer] at hstarts
  revert hstarts
  decide

end Analysis

end Rax.Smir

import Rax.Lib.Graph
import Rax.Smir.Function

/-!
# Backward edges of a compiled region

A region that is promoted automatically leaves native code on every internal edge that goes
backward, so that each native invocation runs through an acyclic slice of the control flow.
Backward is decided on guest addresses: the start of the target against the address of the
last operation of the source block. The main result says for which functions the edges that
remain are acyclic: no cycle of forward edges runs through a block whose last operation lies
before its start, and none runs through blocks that all start at one address.
-/

namespace Rax.Jit

open Relation Rax.Graph Rax.Smir

variable {μ : Type}

/-- Targets of the two terminators that stay native. -/
def branchTargets : Terminator → List BlockId
  | .branch target => [target]
  | .condBranch _ trueTarget falseTarget => [trueTarget, falseTarget]
  | _ => []

/-- Start of a block. The map is collected in block order: of two blocks with one id the
later counts. -/
def guestPcs (func : SmirFunction μ) (id : BlockId) : Option Word :=
  (func.blocks.reverse.find? (·.id == id)).map (·.guestPc)

/-- Address of the last operation, or the start of an empty block. -/
def terminatorPc (block : SmirBlock μ) : Word :=
  (block.ops.getLast?.map (·.guestPc)).getD block.guestPc

/-- The edges of one block that leave native code, with the address they leave to. -/
def backwardEdges (func : SmirFunction μ) (exits : BlockId → Bool) (block : SmirBlock μ) :
    List ((BlockId × BlockId) × Word) :=
  if exits block.id then []
  else (branchTargets block.terminator).filterMap fun target =>
    if exits target then none
    else (guestPcs func target).bind fun targetPc =>
      -- Equality is backward only for a block that branches to itself.
      if targetPc < terminatorPc block ∨ target = block.id then
        some ((block.id, target), targetPc)
      else none

def jitBackwardNativeExitEdges (func : SmirFunction μ) (exits : BlockId → Bool) :
    List ((BlockId × BlockId) × Word) :=
  func.blocks.flatMap (backwardEdges func exits)

/-- Some block with the id branches to the target, and neither leaves native code. -/
def InternalEdge (func : SmirFunction μ) (exits : BlockId → Bool) (block : SmirBlock μ)
    (target : BlockId) : Prop :=
  block ∈ func.blocks ∧ exits block.id = false ∧ exits target = false ∧
    target ∈ branchTargets block.terminator

/-- An edge that native code follows. -/
def NativeEdge (func : SmirFunction μ) (exits : BlockId → Bool) (a b : BlockId) : Prop :=
  (∃ block, InternalEdge func exits block b ∧ block.id = a) ∧
    ∀ pc, ((a, b), pc) ∉ jitBackwardNativeExitEdges func exits

/-- An edge between different blocks, the target starting no earlier than the source ends. -/
def ForwardEdge (func : SmirFunction μ) (exits : BlockId → Bool) (a b : BlockId) : Prop :=
  (∃ block, InternalEdge func exits block b ∧ block.id = a) ∧ a ≠ b ∧
    ∀ block, InternalEdge func exits block b → block.id = a →
      ∀ pc, guestPcs func b = some pc → terminatorPc block ≤ pc

/-- The last operation of some block with the id lies before the start of the block. -/
def FallsBack (func : SmirFunction μ) (a : BlockId) : Prop :=
  ∃ block ∈ func.blocks, block.id = a ∧
    ∃ pc, guestPcs func a = some pc ∧ terminatorPc block < pc

/-- A forward edge between blocks that both start at the given address. -/
def SamePcEdge (func : SmirFunction μ) (exits : BlockId → Bool) (pc : Word)
    (a b : BlockId) : Prop :=
  ForwardEdge func exits a b ∧ guestPcs func a = some pc ∧ guestPcs func b = some pc

variable {func : SmirFunction μ} {exits : BlockId → Bool} {a b : BlockId}

theorem mem_exitEdges_iff {pc : Word} :
    ((a, b), pc) ∈ jitBackwardNativeExitEdges func exits ↔
      guestPcs func b = some pc ∧
        ∃ block, InternalEdge func exits block b ∧ block.id = a ∧
          (pc < terminatorPc block ∨ b = a) := by
  unfold jitBackwardNativeExitEdges
  rw [List.mem_flatMap]
  constructor
  · rintro ⟨block, hblock, hmem⟩
    unfold backwardEdges at hmem
    split at hmem
    case isTrue => cases hmem
    case isFalse hsource =>
      obtain ⟨target, htarget, heq⟩ := List.mem_filterMap.mp hmem
      split at heq
      case isTrue => cases heq
      case isFalse hexit =>
        obtain ⟨targetPc, hpc, heq⟩ := Option.bind_eq_some_iff.mp heq
        split at heq
        case isTrue hback =>
          simp only [Option.some.injEq, Prod.mk.injEq] at heq
          obtain ⟨⟨rfl, rfl⟩, rfl⟩ := heq
          exact ⟨hpc, block, ⟨hblock, by simpa using hsource, by simpa using hexit, htarget⟩,
            rfl, hback⟩
        case isFalse => cases heq
  · rintro ⟨hpc, block, ⟨hblock, hsource, hexit, htarget⟩, rfl, hback⟩
    refine ⟨block, hblock, ?_⟩
    rw [backwardEdges, if_neg (by simp [hsource])]
    exact List.mem_filterMap.mpr ⟨b, htarget, by simp [hexit, hpc, hback]⟩

theorem guestPcs_of_mem {block : SmirBlock μ} (h : block ∈ func.blocks) :
    ∃ pc, guestPcs func block.id = some pc := by
  have hfound : (func.blocks.reverse.find? (·.id == block.id)).isSome = true := by
    rw [List.find?_isSome]
    exact ⟨block, List.mem_reverse.mpr h, by simp⟩
  obtain ⟨found, hfound⟩ := Option.isSome_iff_exists.mp hfound
  exact ⟨found.guestPc, by simp [guestPcs, hfound]⟩

/-- The edges that remain are the forward ones. -/
theorem nativeEdge_iff_forwardEdge : NativeEdge func exits a b ↔ ForwardEdge func exits a b := by
  constructor
  · rintro ⟨⟨source, hedge, rfl⟩, hkept⟩
    refine ⟨⟨source, hedge, rfl⟩, ?_, ?_⟩
    · -- A block that branches to itself is in the function, so its edge was cut.
      rintro rfl
      obtain ⟨pc, hpc⟩ := guestPcs_of_mem hedge.1
      exact hkept pc (mem_exitEdges_iff.mpr ⟨hpc, source, hedge, rfl, .inr rfl⟩)
    · intro block hedge' hid pc hpc
      by_contra hlt
      exact hkept pc (mem_exitEdges_iff.mpr
        ⟨hpc, block, hedge', hid, .inl (BitVec.not_le.mp hlt)⟩)
  · rintro ⟨hedge, hne, hforward⟩
    refine ⟨hedge, fun pc hmem => ?_⟩
    obtain ⟨hpc, block, hedge', hid, hback⟩ := mem_exitEdges_iff.mp hmem
    rcases hback with hlt | rfl
    · exact BitVec.not_lt.mpr (hforward block hedge' hid pc hpc) hlt
    · exact hne rfl

/-- Start of a block as a number, past every address for an id without a block. -/
def startOf (func : SmirFunction μ) (id : BlockId) : Nat :=
  ((guestPcs func id).map BitVec.toNat).getD (2 ^ 64)

theorem startOf_eq {pc : Word} (h : guestPcs func a = some pc) : startOf func a = pc.toNat := by
  simp [startOf, h]

theorem guestPcs_of_startOf {pc : Word} (h : startOf func a = pc.toNat) :
    guestPcs func a = some pc := by
  cases hpc : guestPcs func a with
  | none =>
    simp only [startOf, hpc, Option.map_none, Option.getD_none] at h
    have := pc.isLt
    omega
  | some other =>
    rw [startOf_eq hpc] at h
    rw [BitVec.eq_of_toNat_eq h]

/-- Starts do not decrease along forward edges, as long as no block falls back. -/
theorem startOf_le (hedge : ForwardEdge func exits a b) (ha : ¬ FallsBack func a) :
    startOf func a ≤ startOf func b := by
  obtain ⟨⟨block, hinternal, rfl⟩, -, hforward⟩ := hedge
  obtain ⟨pcA, hpcA⟩ := guestPcs_of_mem hinternal.1
  have hle : pcA ≤ terminatorPc block := by
    by_contra hlt
    exact ha ⟨block, hinternal.1, rfl, pcA, hpcA, BitVec.not_le.mp hlt⟩
  rw [startOf_eq hpcA]
  cases hpcB : guestPcs func b with
  | none =>
    simp only [startOf, hpcB, Option.map_none, Option.getD_none]
    exact Nat.le_of_lt pcA.isLt
  | some pcB =>
    rw [startOf_eq hpcB]
    have hle' := hforward block hinternal rfl pcB hpcB
    exact Nat.le_trans (BitVec.le_def.mp hle) (BitVec.le_def.mp hle')

/-- A cycle of forward edges either meets a block that falls back or stays at one address. -/
theorem forward_cycle (h : TransGen (ForwardEdge func exits) a a) :
    (∃ c, FallsBack func c ∧ TransGen (ForwardEdge func exits) c c) ∨
      ∃ pc, TransGen (SamePcEdge func exits pc) a a := by
  have hcycle : (∃ c, FallsBack func c ∧ TransGen (ForwardEdge func exits) c c) ∨
      TransGen (fun x y => ForwardEdge func exits x y ∧ ¬ FallsBack func x) a a :=
    cycle_meets_or_avoids h
  rcases hcycle with hmeets | havoids
  · exact .inl hmeets
  · right
    obtain ⟨_, ⟨⟨⟨block, hinternal, rfl⟩, -⟩, -⟩, -⟩ := TransGen.head'_iff.mp havoids
    obtain ⟨pc, hpc⟩ := guestPcs_of_mem hinternal.1
    refine ⟨pc, ?_⟩
    have hmono (x y : BlockId) (hxy : ForwardEdge func exits x y ∧ ¬ FallsBack func x) :
        startOf func x ≤ startOf func y := startOf_le hxy.1 hxy.2
    refine TransGen.mono ?_ _ _ (transGen_level hmono havoids le_rfl)
    rintro x y ⟨⟨hxy, -⟩, hx, hy⟩
    rw [startOf_eq hpc] at hx hy
    exact ⟨hxy, guestPcs_of_startOf hx, guestPcs_of_startOf hy⟩

/-- The edges that remain form no cycle, and native code runs through no more blocks than
the function has before it leaves. -/
structure NativeSliceBounded (func : SmirFunction μ) (exits : BlockId → Bool) : Prop where
  acyclic : Acyclic (NativeEdge func exits)
  bounded : ∀ path : List BlockId, path.IsChain (NativeEdge func exits) →
    path.length ≤ func.blocks.length + 1

theorem NativeSliceBounded.of_acyclic (h : Acyclic (NativeEdge func exits)) :
    NativeSliceBounded func exits := by
  refine ⟨h, fun path hpath => ?_⟩
  have hnodes (x y : BlockId) (hxy : NativeEdge func exits x y) :
      x ∈ func.blocks.map (·.id) := by
    obtain ⟨⟨block, hinternal, rfl⟩, -⟩ := hxy
    exact List.mem_map.mpr ⟨block, hinternal.1, rfl⟩
  simpa using length_le_of_isChain h hnodes hpath

/-- Exactly the functions whose native slices are acyclic. -/
theorem native_slice_bounded_iff : NativeSliceBounded func exits ↔
    (∀ a, FallsBack func a → ¬ TransGen (ForwardEdge func exits) a a) ∧
      ∀ pc a, ¬ TransGen (SamePcEdge func exits pc) a a := by
  have hsame : NativeEdge func exits = ForwardEdge func exits := by
    funext x y
    exact propext nativeEdge_iff_forwardEdge
  constructor
  · intro h
    have hacyclic := h.acyclic
    rw [hsame] at hacyclic
    refine ⟨fun a _ => hacyclic a, fun pc a hcycle => ?_⟩
    exact hacyclic a (TransGen.mono (fun _ _ hxy => hxy.1) _ _ hcycle)
  · rintro ⟨hfalls, hsamePc⟩
    apply NativeSliceBounded.of_acyclic
    rw [hsame]
    intro a hcycle
    rcases forward_cycle hcycle with ⟨c, hc, hcc⟩ | ⟨pc, hpc⟩
    · exact hfalls c hc hcc
    · exact hsamePc pc a hpc

/-- A loop entered at `0x1040` whose first block was merged with the block at `0x1010` that
it jumps back to: the branch to `0x1020` counts as forward, and so does the one from there
back to `0x1040`. -/
def mergedLoop : SmirFunction Unit where
  entry := 0
  blocks :=
    [ { id := 0, guestPc := 0x1000, ops := [⟨0x1000, .nop, false⟩], terminator := .branch 1 },
      { id := 1, guestPc := 0x1040,
        ops := [⟨0x1040, .nop, false⟩, ⟨0x1010, .nop, false⟩, ⟨0x1012, .nop, false⟩],
        terminator := .condBranch .rax 2 3 },
      { id := 2, guestPc := 0x1020, ops := [⟨0x1020, .nop, false⟩],
        terminator := .condBranch .rax 1 3 },
      { id := 3, guestPc := 0x1024, terminator := .ret [] } ]

theorem mergedLoop_keeps_cycle : ¬ NativeSliceBounded mergedLoop (· == 3) := by
  have hnone : jitBackwardNativeExitEdges mergedLoop (· == 3) = [] := rfl
  have there : NativeEdge mergedLoop (· == 3) 1 2 :=
    ⟨⟨_, ⟨List.mem_of_getElem? (i := 1) rfl, rfl, rfl, by simp [branchTargets]⟩, rfl⟩,
      by simp [hnone]⟩
  have back : NativeEdge mergedLoop (· == 3) 2 1 :=
    ⟨⟨_, ⟨List.mem_of_getElem? (i := 2) rfl, rfl, rfl, by simp [branchTargets]⟩, rfl⟩,
      by simp [hnone]⟩
  intro h
  exact h.acyclic 1 (.tail (.single there) back)

end Rax.Jit

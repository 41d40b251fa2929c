import Mathlib.Logic.Relation
import Rax.Smir.Function

/-!
# Merging blocks

`block_merging` of `smir/optimize/mod.rs`: a loop whose rounds select a block that branches
to another block with no second predecessor, and move the target into it. The loop has no
bound. A round whose target is found takes one block away from those that can still be
merged; a round whose target is not in the function changes nothing that the selection looks
at, and so it is repeated for ever.
-/

namespace Rax.Smir

open Relation

variable {μ : Type}

/-- The targets that `block_merging` counts as edges. -/
def Terminator.countedTargets : Terminator → List BlockId
  | branch target => [target]
  | condBranch _ trueTarget falseTarget => [trueTarget, falseTarget]
  | switch _ targets default => targets ++ [default]
  | _ => []

@[simp] theorem Terminator.countedTargets_branch (target : BlockId) :
    (branch target).countedTargets = [target] := rfl

@[simp] theorem Terminator.countedTargets_unreachable : unreachable.countedTargets = [] := rfl

def predCount (blocks : List (SmirBlock μ)) (id : BlockId) : Nat :=
  (blocks.map fun block => block.terminator.countedTargets.count id).sum

/-- Empty blocks that return nothing, when they are to be kept. -/
def interpreterFrontiers (func : SmirFunction μ) (id : BlockId) : Bool :=
  func.preserveInterpreterFrontiers && func.blocks.any fun block =>
    block.id == id && block.ops.isEmpty &&
      match block.terminator with
      | .ret values => values.isEmpty
      | _ => false

section Rounds

variable (frontiers : BlockId → Bool)

/-- The block that could be moved into the given one. -/
def mergeTarget (blocks : List (SmirBlock μ)) (block : SmirBlock μ) : Option BlockId :=
  match block.terminator with
  | .branch target =>
    if predCount blocks target = 1 ∧ target ≠ block.id ∧ frontiers target = false then
      some target
    else none
  | _ => none

def mergePair (blocks : List (SmirBlock μ)) : Option (BlockId × BlockId) :=
  blocks.findSome? fun block => (mergeTarget frontiers blocks block).map (block.id, ·)

/-- The source block with the target's operations appended. -/
def SmirBlock.absorb (block target : SmirBlock μ) : SmirBlock μ :=
  { block with ops := block.ops ++ target.ops, terminator := target.terminator }

def SmirBlock.hollow (block : SmirBlock μ) : SmirBlock μ :=
  { block with ops := [], terminator := .unreachable }

/-- Whether a block is kept at the end of a round. -/
def retained (entry : BlockId) (block : SmirBlock μ) : Bool :=
  block.id == entry || !block.ops.isEmpty ||
    match block.terminator with
    | .unreachable => false
    | _ => true

def SmirFunction.dropHollow (func : SmirFunction μ) : SmirFunction μ :=
  { func with blocks := func.blocks.filter (retained func.entry) }

/-- Instruction bytes follow the operations; where source and target both have bytes for an
address, neither is kept. -/
def moveProvenance (bytes : BlockId → Word → Option (List Byte)) (source target : BlockId) :
    BlockId → Word → Option (List Byte) := fun id pc =>
  if id = target then none
  else if id = source then
    match bytes target pc, bytes source pc with
    | none, own => own
    | some moved, none => some moved
    | some _, some _ => none
  else bytes id pc

/-- Move the first block with the id `target` into the first with the id `source`. -/
def mergeInto (func : SmirFunction μ) (source target : BlockId) :
    Option (SmirFunction μ) := do
  let i ← func.blocks.findIdx? (·.id == source)
  let j ← func.blocks.findIdx? (·.id == target)
  let block ← func.blocks[j]?
  some { func with
    blocks := (func.blocks.modify i (·.absorb block)).modify j SmirBlock.hollow
    x86InstructionBytes := moveProvenance func.x86InstructionBytes source target }

/-- One round: nothing when no pair is selected, otherwise the function after it and the
number of blocks merged. -/
def mergeRound (func : SmirFunction μ) : Option (SmirFunction μ × Nat) :=
  (mergePair frontiers func.blocks).map fun (source, target) =>
    match mergeInto func source target with
    | some merged => (merged.dropHollow, 1)
    | none => (func.dropHollow, 0)

/-- At most `fuel` rounds; nothing if they do not suffice. -/
def mergeLoop : Nat → SmirFunction μ → Nat → Option (SmirFunction μ × Nat)
  | 0, _, _ => none
  | fuel + 1, func, count =>
    match mergeRound frontiers func with
    | none => some (func, count)
    | some (func, merged) => mergeLoop fuel func (count + merged)

end Rounds

def blockMerging (fuel : Nat) (func : SmirFunction μ) : Option (SmirFunction μ × Nat) :=
  if func.blocks.length < 2 then some (func, 0)
  else mergeLoop (interpreterFrontiers func) fuel func 0

/-- The blocks that another block could be moved into. -/
def mergeable (frontiers : BlockId → Bool) (blocks : List (SmirBlock μ)) : Nat :=
  blocks.countP fun block => (mergeTarget frontiers blocks block).isSome

/-- The function at the start of some round. -/
def RoundStart (func before : SmirFunction μ) : Prop :=
  2 ≤ func.blocks.length ∧
    ReflTransGen (fun a b => ∃ k, mergeRound (interpreterFrontiers func) a = some (b, k))
      func before

/-- The loop ends, and every round leaves fewer blocks to merge. -/
structure MergingProgresses (func : SmirFunction μ) : Prop where
  terminates : ∃ fuel result, blockMerging fuel func = some result
  reduces : ∀ before after k, RoundStart func before →
    mergeRound (interpreterFrontiers func) before = some (after, k) →
    mergeable (interpreterFrontiers func) after.blocks <
      mergeable (interpreterFrontiers func) before.blocks

/-- Whenever a pair is selected, its target is in the function, and the first block with the
id of the selected one could be merged with the target as well. -/
def RoundsFind (func : SmirFunction μ) : Prop :=
  ∀ before source target, RoundStart func before →
    mergePair (interpreterFrontiers func) before.blocks = some (source, target) →
    (∃ block ∈ before.blocks, block.id = target) ∧
      ∃ block, before.getBlock source = some block ∧
        mergeTarget (interpreterFrontiers func) before.blocks block = some target

section Weights

variable {β : Type} (w : β → Nat)

theorem sum_map_modify (g : β → β) {l : List β} {i : Nat} {b : β} (h : l[i]? = some b) :
    ((l.modify i g).map w).sum + w b = (l.map w).sum + w (g b) := by
  induction l generalizing i with
  | nil => simp at h
  | cons a l ih =>
    cases i with
    | zero =>
      obtain rfl : a = b := by simpa using h
      simp
      omega
    | succ i =>
      have := ih (i := i) (by simpa using h)
      simp
      omega

theorem countP_eq_sum_map (p : β → Bool) (l : List β) :
    l.countP p = (l.map fun b => (p b).toNat).sum := by
  induction l with
  | nil => rfl
  | cons a l ih => cases h : p a <;> simp [h, ih, Nat.add_comm]

theorem countP_lt_countP {p q : β → Bool} {l : List β} (h : ∀ x ∈ l, p x = true → q x = true)
    {b : β} (hb : b ∈ l) (hp : p b = false) (hq : q b = true) : l.countP p < l.countP q := by
  obtain ⟨before, after, rfl⟩ := List.append_of_mem hb
  have hbefore : before.countP p ≤ before.countP q :=
    List.countP_mono_left fun x hx => h x (List.mem_append_left _ hx)
  have hafter : after.countP p ≤ after.countP q :=
    List.countP_mono_left fun x hx => h x (List.mem_append_right _ (List.mem_cons_of_mem _ hx))
  simp only [List.countP_append, List.countP_cons, hp, hq, if_true]
  simp only [Bool.false_eq_true, if_false]
  omega

end Weights

section Target

variable {frontiers : BlockId → Bool} {blocks : List (SmirBlock μ)} {block : SmirBlock μ}
  {target : BlockId}

theorem mergeTarget_eq_some_iff : mergeTarget frontiers blocks block = some target ↔
    block.terminator = .branch target ∧ predCount blocks target = 1 ∧ target ≠ block.id ∧
      frontiers target = false := by
  unfold mergeTarget
  split
  · next other hterm =>
    rw [Option.ite_none_right_eq_some, Option.some.injEq]
    constructor
    · rintro ⟨hcond, rfl⟩
      exact ⟨hterm, hcond⟩
    · rintro ⟨hterm', hcond⟩
      obtain rfl : other = target := Terminator.branch.inj (hterm.symm.trans hterm')
      exact ⟨hcond, rfl⟩
  · next hterm =>
    refine ⟨fun h => absurd h.symm (Option.some_ne_none _), ?_⟩
    rintro ⟨hbranch, -⟩
    exact absurd hbranch (hterm target)

theorem isSome_mergeTarget_iff : (mergeTarget frontiers blocks block).isSome = true ↔
    ∃ target, block.terminator = .branch target ∧ predCount blocks target = 1 ∧
      target ≠ block.id ∧ frontiers target = false := by
  simp only [Option.isSome_iff_exists, mergeTarget_eq_some_iff]

theorem predCount_filter_retained (entry target : BlockId) :
    predCount (blocks.filter (retained entry)) target = predCount blocks target := by
  unfold predCount
  induction blocks with
  | nil => rfl
  | cons block blocks ih =>
    cases hkept : retained entry block with
    | true => simp [hkept, ih]
    | false =>
      have hterm : block.terminator = .unreachable := by
        simp only [retained, Bool.or_eq_false_iff] at hkept
        split at hkept
        · next h => exact h
        · cases hkept.2
      simp [hkept, ih, hterm]

theorem mergeable_filter_retained (entry : BlockId) :
    mergeable frontiers (blocks.filter (retained entry)) = mergeable frontiers blocks := by
  have hsame (block : SmirBlock μ) :
      mergeTarget frontiers (blocks.filter (retained entry)) block =
        mergeTarget frontiers blocks block := by
    unfold mergeTarget
    simp only [predCount_filter_retained]
  unfold mergeable
  simp only [hsame]
  rw [List.countP_filter]
  refine List.countP_congr fun block _ => ?_
  rw [Bool.and_eq_true, and_iff_left_iff_imp]
  intro h
  obtain ⟨target, hterm, -⟩ := isSome_mergeTarget_iff.mp h
  simp [retained, hterm]

theorem mergeable_dropHollow (func : SmirFunction μ) :
    mergeable frontiers func.dropHollow.blocks = mergeable frontiers func.blocks :=
  mergeable_filter_retained func.entry

end Target

section Merge

variable {frontiers : BlockId → Bool} {blocks : List (SmirBlock μ)} {block target : SmirBlock μ}
  {i j : Nat}

/-- The blocks after a merge. -/
def mergedBlocks (blocks : List (SmirBlock μ)) (i j : Nat) (target : SmirBlock μ) :
    List (SmirBlock μ) :=
  (blocks.modify i (·.absorb target)).modify j SmirBlock.hollow

/-- What a weight of blocks loses and gains in a merge. -/
theorem sum_map_mergedBlocks (w : SmirBlock μ → Nat) (hi : blocks[i]? = some block)
    (hj : blocks[j]? = some target) (hne : i ≠ j) :
    ((mergedBlocks blocks i j target).map w).sum + w block + w target =
      (blocks.map w).sum + w (block.absorb target) + w target.hollow := by
  have hj' : (blocks.modify i (·.absorb target))[j]? = some target := by
    rw [List.getElem?_modify_ne _ _ hne, hj]
  have hfirst := sum_map_modify w (·.absorb target) hi
  have hsecond := sum_map_modify w SmirBlock.hollow hj'
  unfold mergedBlocks
  omega

/-- Only the edge along which the blocks are merged is lost. -/
theorem predCount_mergedBlocks (hi : blocks[i]? = some block) (hj : blocks[j]? = some target)
    (hne : i ≠ j) (hterm : block.terminator = .branch target.id) (id : BlockId) :
    predCount (mergedBlocks blocks i j target) id + [target.id].count id =
      predCount blocks id := by
  have hsum := sum_map_mergedBlocks
    (fun block => block.terminator.countedTargets.count id) hi hj hne
  simp only [SmirBlock.absorb, SmirBlock.hollow, hterm, Terminator.countedTargets_branch,
    Terminator.countedTargets_unreachable, List.count_nil] at hsum
  unfold predCount
  omega

variable (hi : blocks[i]? = some block) (hj : blocks[j]? = some target) (hne : i ≠ j)
  (hmerge : mergeTarget frontiers blocks block = some target.id)

include hi hj hne hmerge

/-- After a merge nothing branches to the target, and other blocks are merged as before. -/
theorem mergeTarget_of_mergedBlocks {other : SmirBlock μ} {id : BlockId}
    (h : mergeTarget frontiers (mergedBlocks blocks i j target) other = some id) :
    id ≠ target.id ∧ mergeTarget frontiers blocks other = some id := by
  obtain ⟨hterm, hsingle, -⟩ := mergeTarget_eq_some_iff.mp hmerge
  obtain ⟨hbranch, hcount, hself, hfrontier⟩ := mergeTarget_eq_some_iff.mp h
  have hpred := predCount_mergedBlocks hi hj hne hterm
  have hid : id ≠ target.id := by
    rintro rfl
    have := hpred target.id
    rw [List.count_singleton_self] at this
    omega
  refine ⟨hid, mergeTarget_eq_some_iff.mpr ⟨hbranch, ?_, hself, hfrontier⟩⟩
  rw [← hpred id, hcount, List.count_eq_zero.mpr (by simpa using hid)]

/-- A merge leaves fewer blocks to merge. -/
theorem mergeable_mergedBlocks :
    mergeable frontiers (mergedBlocks blocks i j target) < mergeable frontiers blocks := by
  set merged := mergedBlocks blocks i j target with hmerged
  let canMerge (b : SmirBlock μ) : Bool := (mergeTarget frontiers merged b).isSome
  have hkeeps {b : SmirBlock μ} {id : BlockId} (h : mergeTarget frontiers merged b = some id) :=
    mergeTarget_of_mergedBlocks hi hj hne hmerge h
  have hterm : block.terminator = .branch target.id := (mergeTarget_eq_some_iff.mp hmerge).1
  -- The source loses its branch, the target hands its own on, and nobody gains one.
  have hblock : canMerge block = false := by
    rw [Bool.eq_false_iff]
    intro h
    obtain ⟨id, hid⟩ := Option.isSome_iff_exists.mp h
    obtain ⟨hbranch, -⟩ := mergeTarget_eq_some_iff.mp hid
    exact (hkeeps hid).1 (Terminator.branch.inj (hterm.symm.trans hbranch)).symm
  have hhollow : canMerge target.hollow = false := rfl
  have habsorb : (canMerge (block.absorb target)).toNat ≤ (canMerge target).toNat := by
    refine Bool.toNat_le_toNat fun h => ?_
    obtain ⟨id, hid⟩ := Option.isSome_iff_exists.mp h
    obtain ⟨hbranch, hcount, -, hfrontier⟩ := mergeTarget_eq_some_iff.mp hid
    exact isSome_mergeTarget_iff.mpr ⟨id, hbranch, hcount, (hkeeps hid).1, hfrontier⟩
  have hsum := sum_map_mergedBlocks (fun b => (canMerge b).toNat) hi hj hne
  rw [← countP_eq_sum_map, ← countP_eq_sum_map, ← hmerged, hblock, hhollow,
    Bool.toNat_false] at hsum
  have hle : merged.countP canMerge ≤ blocks.countP canMerge := by omega
  have hlt : blocks.countP canMerge <
      blocks.countP fun b => (mergeTarget frontiers blocks b).isSome := by
    refine countP_lt_countP (fun b _ h => ?_) (List.mem_of_getElem? hi) hblock ?_
    · obtain ⟨id, hid⟩ := Option.isSome_iff_exists.mp h
      exact Option.isSome_iff_exists.mpr ⟨id, (hkeeps hid).2⟩
    · rw [hmerge]
      rfl
  exact Nat.lt_of_le_of_lt hle hlt

end Merge

section Round

variable {func : SmirFunction μ} {frontiers : BlockId → Bool} {source target : BlockId}

theorem exists_getElem_of_findIdx {p : SmirBlock μ → Bool} {blocks : List (SmirBlock μ)}
    {i : Nat} (h : blocks.findIdx? p = some i) :
    ∃ block, blocks[i]? = some block ∧ blocks.find? p = some block := by
  obtain ⟨hlt, hp, hfirst⟩ := List.findIdx?_eq_some_iff_getElem.mp h
  refine ⟨blocks[i], List.getElem?_eq_getElem hlt, List.find?_eq_some_iff_getElem.mpr
    ⟨hp, i, hlt, rfl, fun j hj => ?_⟩⟩
  simpa using hfirst j hj

theorem mergeInto_of_getBlock {block other : SmirBlock μ}
    (hsource : func.getBlock source = some block) (htarget : func.getBlock target = some other) :
    ∃ i j, func.blocks[i]? = some block ∧ func.blocks[j]? = some other ∧
      mergeInto func source target = some
        { func with
          blocks := mergedBlocks func.blocks i j other
          x86InstructionBytes := moveProvenance func.x86InstructionBytes source target } := by
  have hfound (id : BlockId) (b : SmirBlock μ) (h : func.getBlock id = some b) :
      ∃ i, func.blocks.findIdx? (·.id == id) = some i ∧ func.blocks[i]? = some b := by
    have hsome : (func.blocks.findIdx? (·.id == id)).isSome = true := by
      rw [List.findIdx?_isSome, List.any_eq_true]
      exact ⟨b, SmirFunction.mem_of_getBlock h, by simp [SmirFunction.getBlock_id h]⟩
    obtain ⟨i, hi⟩ := Option.isSome_iff_exists.mp hsome
    obtain ⟨b', hget, hfind⟩ := exists_getElem_of_findIdx hi
    obtain rfl : b' = b := Option.some.inj (hfind.symm.trans h)
    exact ⟨i, hi, hget⟩
  obtain ⟨i, hi, hgetI⟩ := hfound source block hsource
  obtain ⟨j, hj, hgetJ⟩ := hfound target other htarget
  refine ⟨i, j, hgetI, hgetJ, ?_⟩
  simp only [mergeInto, hi, hj, hgetJ, Option.bind_eq_bind, Option.bind_some]
  rfl

theorem mergeInto_of_absent (h : ∀ block ∈ func.blocks, block.id ≠ target) :
    mergeInto func source target = none := by
  have hnone : func.blocks.findIdx? (·.id == target) = none := by
    rw [List.findIdx?_eq_none_iff]
    simpa using h
  simp [mergeInto, hnone]

/-- A round that finds its blocks leaves fewer to merge. -/
theorem mergeable_lt_of_found {after : SmirFunction μ} {k : Nat} {block : SmirBlock μ}
    (hround : mergeRound frontiers func = some (after, k))
    (hpair : mergePair frontiers func.blocks = some (source, target))
    (htarget : ∃ block ∈ func.blocks, block.id = target)
    (hsource : func.getBlock source = some block)
    (hmerge : mergeTarget frontiers func.blocks block = some target) :
    mergeable frontiers after.blocks < mergeable frontiers func.blocks := by
  obtain ⟨_, hmem, rfl⟩ := htarget
  obtain ⟨other, hother⟩ := SmirFunction.exists_getBlock hmem
  obtain ⟨i, j, hi, hj, hinto⟩ := mergeInto_of_getBlock hsource hother
  have hid := SmirFunction.getBlock_id hother
  have hne : i ≠ j := by
    rintro rfl
    obtain rfl := Option.some.inj (hi.symm.trans hj)
    exact (mergeTarget_eq_some_iff.mp hmerge).2.2.1 hid.symm
  simp only [mergeRound, hpair, Option.map_some, hinto, Option.some.injEq, Prod.mk.injEq] at hround
  obtain ⟨rfl, -⟩ := hround
  rw [mergeable_dropHollow]
  exact mergeable_mergedBlocks hi hj hne (hid ▸ hmerge)

theorem mergeable_eq_of_absent {after : SmirFunction μ} {k : Nat}
    (hround : mergeRound frontiers func = some (after, k))
    (hpair : mergePair frontiers func.blocks = some (source, target))
    (h : ∀ block ∈ func.blocks, block.id ≠ target) :
    mergeable frontiers after.blocks = mergeable frontiers func.blocks := by
  simp only [mergeRound, hpair, Option.map_some, mergeInto_of_absent h, Option.some.injEq,
    Prod.mk.injEq] at hround
  obtain ⟨rfl, -⟩ := hround
  exact mergeable_dropHollow func

theorem map_modify_of_eq {β γ : Type} (f : β → γ) {g : β → β} (h : ∀ b, f (g b) = f b)
    (l : List β) (i : Nat) : (l.modify i g).map f = l.map f := by
  refine List.ext_getElem? fun k => ?_
  rw [List.getElem?_map, List.getElem?_map, List.getElem?_modify]
  cases l[k]? with
  | none => rfl
  | some b =>
    by_cases hk : i = k
    · simp [hk, h]
    · simp [hk]

theorem ids_mergeInto {merged : SmirFunction μ}
    (h : mergeInto func source target = some merged) :
    merged.blocks.map (·.id) = func.blocks.map (·.id) := by
  simp only [mergeInto, Option.bind_eq_bind, Option.bind_eq_some_iff, Option.some.injEq] at h
  obtain ⟨i, -, j, -, other, -, rfl⟩ := h
  have habsorb : (func.blocks.modify i (·.absorb other)).map (·.id) = func.blocks.map (·.id) :=
    map_modify_of_eq SmirBlock.id (g := (·.absorb other)) (fun _ => rfl) _ _
  exact (map_modify_of_eq SmirBlock.id (g := SmirBlock.hollow) (fun _ => rfl) _ _).trans habsorb

omit frontiers source target in
theorem SmirFunction.DistinctIds.dropHollow (h : func.DistinctIds) :
    func.dropHollow.DistinctIds :=
  h.sublist (List.filter_sublist.map _)

theorem distinctIds_of_mergeRound {after : SmirFunction μ} {k : Nat}
    (hround : mergeRound frontiers func = some (after, k)) (h : func.DistinctIds) :
    after.DistinctIds := by
  obtain ⟨⟨source, target⟩, -, hafter⟩ := Option.map_eq_some_iff.mp hround
  cases hmerged : mergeInto func source target with
  | none =>
    simp only [hmerged, Prod.mk.injEq] at hafter
    exact hafter.1 ▸ h.dropHollow
  | some merged =>
    simp only [hmerged, Prod.mk.injEq] at hafter
    have hids : merged.DistinctIds := by
      rw [SmirFunction.DistinctIds, ids_mergeInto hmerged]
      exact h
    exact hafter.1 ▸ hids.dropHollow

/-- If every round leaves fewer blocks to merge, the loop ends. -/
theorem mergeLoop_terminates (h : ∀ before after k,
      ReflTransGen (fun a b => ∃ k, mergeRound frontiers a = some (b, k)) func before →
      mergeRound frontiers before = some (after, k) →
      mergeable frontiers after.blocks < mergeable frontiers before.blocks) (count : Nat) :
    ∃ fuel result, mergeLoop frontiers fuel func count = some result := by
  induction hn : mergeable frontiers func.blocks using Nat.strong_induction_on
    generalizing func count with
  | _ n ih =>
    cases hround : mergeRound frontiers func with
    | none => exact ⟨1, (func, count), by rw [mergeLoop, hround]⟩
    | some result =>
      obtain ⟨after, k⟩ := result
      have hlt := h func after k .refl hround
      obtain ⟨fuel, result, hloop⟩ := ih _ (hn ▸ hlt)
        (fun before next k hbefore => h before next k (.head ⟨_, hround⟩ hbefore))
        (count + k) rfl
      exact ⟨fuel + 1, result, by rw [mergeLoop, hround]; exact hloop⟩

end Round

/-- Merging makes progress if every round finds its blocks, and for distinct ids only then. -/
theorem blockMerging_progresses (func : SmirFunction μ) :
    (RoundsFind func → MergingProgresses func) ∧
      (func.DistinctIds → MergingProgresses func → RoundsFind func) := by
  constructor
  · intro hfind
    have hreduces (before after : SmirFunction μ) (k : Nat) (hstart : RoundStart func before)
        (hround : mergeRound (interpreterFrontiers func) before = some (after, k)) :
        mergeable (interpreterFrontiers func) after.blocks <
          mergeable (interpreterFrontiers func) before.blocks := by
      obtain ⟨⟨source, target⟩, hpair, -⟩ := Option.map_eq_some_iff.mp hround
      obtain ⟨htarget, block, hsource, hmerge⟩ := hfind before source target hstart hpair
      exact mergeable_lt_of_found hround hpair htarget hsource hmerge
    refine ⟨?_, hreduces⟩
    by_cases hsmall : func.blocks.length < 2
    · exact ⟨0, (func, 0), if_pos hsmall⟩
    · obtain ⟨fuel, result, hloop⟩ := mergeLoop_terminates
        (fun before after k hbefore => hreduces before after k ⟨not_lt.mp hsmall, hbefore⟩) 0
      exact ⟨fuel, result, (if_neg hsmall).trans hloop⟩
  · intro hids hprogress before source target hstart hpair
    have hbefore : before.DistinctIds := by
      refine ReflTransGen.head_induction_on (motive := fun g _ => g.DistinctIds →
        before.DistinctIds) hstart.2 (fun h => h) ?_ hids
      rintro a b ⟨k, hround⟩ - ih ha
      exact ih (distinctIds_of_mergeRound hround ha)
    obtain ⟨block, hmem, hselected⟩ := List.exists_of_findSome?_eq_some hpair
    obtain ⟨id, hmerge, heq⟩ := Option.map_eq_some_iff.mp hselected
    obtain ⟨rfl, rfl⟩ := Prod.mk.inj heq
    refine ⟨?_, block, hbefore.getBlock_of_mem hmem, hmerge⟩
    -- A round without its target leaves as many blocks to merge as before.
    by_contra hnone
    have habsent : ∀ other ∈ before.blocks, other.id ≠ id := fun other hother hid =>
      hnone ⟨other, hother, hid⟩
    have hround := congrArg (Option.map fun pair : BlockId × BlockId =>
      match mergeInto before pair.1 pair.2 with
      | some merged => (merged.dropHollow, 1)
      | none => (before.dropHollow, 0)) hpair
    have hlt := hprogress.reduces before _ _ hstart hround
    exact absurd (mergeable_eq_of_absent hround hpair habsent) (Nat.ne_of_lt hlt)

/-- Three blocks in a row. -/
def threeInRow : SmirFunction Unit where
  entry := 0
  blocks :=
    [ { id := 0, guestPc := 0x1000, ops := [⟨0x1000, .nop, false⟩], terminator := .branch 1 },
      { id := 1, guestPc := 0x1010, ops := [⟨0x1010, .nop, false⟩], terminator := .branch 2 },
      { id := 2, guestPc := 0x1020, terminator := .ret [] } ]

/-- Two rounds merge them, and both find their blocks. -/
theorem threeInRow_progresses : RoundsFind threeInRow ∧ MergingProgresses threeInRow := by
  suffices hfind : RoundsFind threeInRow from ⟨hfind, (blockMerging_progresses threeInRow).1 hfind⟩
  rintro before source target ⟨-, hrounds⟩ hpair
  rcases hrounds.cases_head with rfl | ⟨g, ⟨k, hround⟩, hrounds⟩
  · cases hpair
    exact ⟨⟨_, .tail _ (.head _), rfl⟩, _, rfl, rfl⟩
  cases hround
  rcases hrounds.cases_head with rfl | ⟨g, ⟨k, hround⟩, hrounds⟩
  · cases hpair
    exact ⟨⟨_, .tail _ (.head _), rfl⟩, _, rfl, rfl⟩
  cases hround
  rcases hrounds.cases_head with rfl | ⟨g, ⟨k, hround⟩, hrounds⟩
  · cases hpair
  · cases hround

/-- A region with an edge to the block 7, which is not part of it. -/
def openRegion : SmirFunction Unit where
  entry := 0
  blocks :=
    [ { id := 0, guestPc := 0x1000, terminator := .condBranch .rax 1 2 },
      { id := 1, guestPc := 0x1010, ops := [⟨0x1010, .nop, false⟩], terminator := .branch 7 },
      { id := 2, guestPc := 0x1020, terminator := .ret [] } ]

/-- The edge is selected in every round, and no round changes the function. -/
theorem openRegion_merging_never_ends : ¬ MergingProgresses openRegion := by
  intro h
  obtain ⟨fuel, result, hresult⟩ := h.terminates
  have hround : mergeRound (interpreterFrontiers openRegion) openRegion = some (openRegion, 0) :=
    rfl
  have hloop (fuel count : Nat) :
      mergeLoop (interpreterFrontiers openRegion) fuel openRegion count = none := by
    induction fuel generalizing count with
    | zero => rfl
    | succ fuel ih =>
      rw [mergeLoop, hround]
      exact ih _
  have hnone : blockMerging fuel openRegion = none := hloop fuel 0
  rw [hnone] at hresult
  cases hresult

end Rax.Smir

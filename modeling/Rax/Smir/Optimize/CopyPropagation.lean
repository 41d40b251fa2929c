import Rax.Lib.Rewriting
import Rax.Smir.Interpret.Move
import Rax.Smir.Optimize.RegFootprint

/-!
# Copy propagation

`copy_propagation` and `rewrite_pure_src_vregs` of `smir/optimize/mod.rs`. A 64-bit move
between registers is recorded as a copy and later pure sources are replaced by its origin,
until an operation lists one of the two registers as a destination. The replacement is right
as long as the two registers really hold one value. A move does not establish that if its
destination stores fewer than 64 bits, and the table does not see writes to a register that
are not listed or go through another name.
-/

namespace Rax.Smir

variable {μ : Type}

/-- The `do_s` closure: only a plain register operand is rewritten. -/
def SrcOperand.rewrite (f : VReg → VReg) : SrcOperand → SrcOperand
  | reg r => reg (f r)
  | src => src

/-- Sources of the operations outside the integer core that `rewrite_pure_src_vregs` visits. -/
inductive VisitedSources
  | x86Sha32 (src1 src2 : VReg) (wk : Option VReg)
  | x86PackedStringCompare (src1 src2 : VReg) (len1 len2 : Option VReg)

namespace VisitedSources

def rewrite (f : VReg → VReg) : VisitedSources → VisitedSources
  | x86Sha32 src1 src2 wk => x86Sha32 (f src1) (f src2) (wk.map f)
  | x86PackedStringCompare src1 src2 len1 len2 =>
    x86PackedStringCompare (f src1) (f src2) (len1.map f) (len2.map f)

/-- The sources that the interpreter reads with `read_vec`. -/
def vectors : VisitedSources → List VReg
  | x86Sha32 src1 src2 wk => src1 :: src2 :: wk.toList
  | x86PackedStringCompare src1 src2 _ _ => [src1, src2]

/-- The sources that it reads with `read_vreg`. -/
def lengths : VisitedSources → List VReg
  | x86Sha32 _ _ _ => []
  | x86PackedStringCompare _ _ len1 len2 => len1.toList ++ len2.toList

end VisitedSources

/-- An operation outside the integer core as one of the two that are visited: its sources, and the
operation with others in their place. The evaluation looks at the lengths by value only. -/
structure OtherOp.Visited (o : OtherOp μ) where
  sources : VisitedSources
  withSources : VisitedSources → OtherOp μ
  eval_eq : ∀ env (i : Inputs μ) f, (∀ r ∈ sources.vectors, f r = r) →
    (∀ r ∈ sources.lengths, i.read (f r) = i.read r) →
    (withSources (sources.rewrite f)).eval env i = o.eval env i
  writesMemory_eq : ∀ s, (withSources s).writesMemory = o.writesMemory

namespace OpKind

-- Which of the operations outside the integer core are the two is a parameter.
variable (visit : ∀ o : OtherOp μ, Option o.Visited)

/-- The sources that `rewrite_pure_src_vregs` visits. -/
def pureSources : OpKind μ → List VReg
  | .arith _ _ src1 src2 _ _ | .logic _ _ src1 src2 _ _ | .cmp src1 src2 _ | .test src1 src2 _
  | .mul _ _ _ src1 src2 _ _ | .div _ _ _ src1 src2 _ _ => src1 :: src2.plainReg
  | .mov _ src _ => src.plainReg
  | .neg _ src _ _ | .incDec _ _ src _ _ | .not _ src _ | .cwd _ src _ | .scan _ _ src _ _
  | .bitCount _ _ src _ | .x86Count _ src _ _ _ | .bswap _ src _ | .rbit _ src _
  | .extend _ _ src _ _ | .truncate _ src _ _ | .cmove _ src _ _ => [src]
  | .shift _ _ src amount _ _ | .rotate _ _ src amount _ _ | .rotateCarry _ _ src amount _ _
  | .doubleShift _ _ src amount _ _ => src :: amount.plainReg
  | .x86NddDoubleShift _ base fill amount _ _ _ => base :: fill :: amount.plainReg
  | .bt src index _ | .bitMod _ _ src index _ => src :: index.plainReg
  | .select _ cond srcTrue srcFalse _ => [cond, srcTrue, srcFalse]
  | .other o => (visit o).elim [] fun v => v.sources.vectors ++ v.sources.lengths
  | _ => []

/-- Those of them that are vectors. -/
def vectorSources : OpKind μ → List VReg
  | .other o => (visit o).elim [] fun v => v.sources.vectors
  | _ => []

section Rewrite

variable (f : VReg → VReg)

/-- `rewrite_pure_src_vregs`, the new operation. -/
def rewritePureSrcVregs : OpKind μ → OpKind μ
  | .arith kind dst src1 src2 width flags =>
    .arith kind dst (f src1) (src2.rewrite f) width flags
  | .logic kind dst src1 src2 width flags =>
    .logic kind dst (f src1) (src2.rewrite f) width flags
  | .cmp src1 src2 width => .cmp (f src1) (src2.rewrite f) width
  | .test src1 src2 width => .test (f src1) (src2.rewrite f) width
  | .mul signed dstLo dstHi src1 src2 width flags =>
    .mul signed dstLo dstHi (f src1) (src2.rewrite f) width flags
  | .div signed quot rem src1 src2 width flags =>
    .div signed quot rem (f src1) (src2.rewrite f) width flags
  | .mov dst src width => .mov dst (src.rewrite f) width
  | .neg dst src width flags => .neg dst (f src) width flags
  | .incDec kind dst src width flags => .incDec kind dst (f src) width flags
  | .not dst src width => .not dst (f src) width
  | .cwd dst src width => .cwd dst (f src) width
  | .scan kind dst src width flags => .scan kind dst (f src) width flags
  | .bitCount kind dst src width => .bitCount kind dst (f src) width
  | .x86Count dst src width kind flags => .x86Count dst (f src) width kind flags
  | .bswap dst src width => .bswap dst (f src) width
  | .rbit dst src width => .rbit dst (f src) width
  | .extend signed dst src fromWidth toWidth => .extend signed dst (f src) fromWidth toWidth
  | .truncate dst src fromWidth toWidth => .truncate dst (f src) fromWidth toWidth
  | .shift kind dst src amount width flags =>
    .shift kind dst (f src) (amount.rewrite f) width flags
  | .rotate kind dst src amount width flags =>
    .rotate kind dst (f src) (amount.rewrite f) width flags
  | .rotateCarry kind dst src amount width flags =>
    .rotateCarry kind dst (f src) (amount.rewrite f) width flags
  -- The destination of a double shift is read as well and stays.
  | .doubleShift left dst src amount width flags =>
    .doubleShift left dst (f src) (amount.rewrite f) width flags
  | .x86NddDoubleShift dst base fill amount width left flags =>
    .x86NddDoubleShift dst (f base) (f fill) (amount.rewrite f) width left flags
  | .cmove dst src cond width => .cmove dst (f src) cond width
  | .bt src index width => .bt (f src) (index.rewrite f) width
  | .bitMod kind dst src index width => .bitMod kind dst (f src) (index.rewrite f) width
  | .select dst cond srcTrue srcFalse width =>
    .select dst (f cond) (f srcTrue) (f srcFalse) width
  | .other o => .other ((visit o).elim o fun v => v.withSources (v.sources.rewrite f))
  | kind => kind

/-- `rewrite_pure_src_vregs`, the number of operands that changed. -/
def rewriteCount (kind : OpKind μ) : Nat :=
  ((kind.pureSources visit).filter fun r => f r ≠ r).length

end Rewrite

/-- Destination and source of a 64-bit move between registers. -/
def fullCopy : OpKind μ → Option (VReg × VReg)
  | .mov dst (.reg src) .w64 => some (dst, src)
  | _ => none

theorem eq_mov_of_fullCopy {kind : OpKind μ} {dst src : VReg}
    (h : kind.fullCopy = some (dst, src)) : kind = .mov dst (.reg src) .w64 := by
  cases kind with
  | mov d s width =>
    cases s with
    | reg r => cases width <;> first | (cases h; rfl) | cases h
    | _ => cases h
  | _ => cases h

end OpKind

/-- The copy map: `copies d = some s` is meant to say that `d` holds the value of `s`. -/
abbrev Copies := VReg → Option VReg

namespace Copies

/-- What a use of a register is rewritten to. -/
def origin (copies : Copies) (r : VReg) : VReg := (copies r).getD r

/-- Drop the copies of and from the destinations of an operation. -/
def kill (copies : Copies) (dests : List VReg) : Copies := fun d =>
  if d ∈ dests then none else (copies d).filter (· ∉ dests)

/-- Record a 64-bit move between two registers. -/
def record (copies : Copies) (kind : OpKind μ) : Copies :=
  match kind.fullCopy with
  | some (dst, src) => if dst ≠ src then Function.update copies dst (some src) else copies
  | none => copies

end Copies

section Pass

variable (visit : ∀ o : OtherOp μ, Option o.Visited)

/-- The operation after step 1 of the loop body. -/
def SmirOp.propagate (copies : Copies) (op : SmirOp μ) : SmirOp μ :=
  { op with kind := op.kind.rewritePureSrcVregs visit copies.origin }

/-- One iteration of the loop. -/
def copyStep (copies : Copies) (op : SmirOp μ) : SmirOp μ × Copies :=
  let kind := (op.propagate visit copies).kind
  (op.propagate visit copies, (copies.kill kind.dests).record kind)

/-- The number of operand rewrites in a block. -/
def copyCount : Copies → List (SmirOp μ) → Nat
  | _, [] => 0
  | copies, op :: ops =>
    op.kind.rewriteCount visit copies.origin +
      copyCount (copyStep visit copies op).2 ops

/-- `copy_propagation`. -/
def copyPropagation (ops : List (SmirOp μ)) : List (SmirOp μ) × Nat :=
  (rewriteSeq (copyStep visit) (fun _ => none) ops,
    copyCount visit (fun _ => none) ops)

end Pass

section Rewritten

variable [SmirMemory μ] {env : Env} {visit : ∀ o : OtherOp μ, Option o.Visited} {f : VReg → VReg}

theorem readSrcOperand_rewrite {read : VReg → Word} {src : SrcOperand}
    (h : ∀ r ∈ src.plainReg, read (f r) = read r) :
    readSrcOperand read (src.rewrite f) = readSrcOperand read src := by
  cases src with
  | reg r => exact h r (List.mem_singleton_self r)
  | _ => rfl

/-- Replacing sources by registers of the same value, and no vectors, does not change what an
operation does. -/
theorem eval_rewritePureSrcVregs {op : SmirOp μ} {i : Inputs μ}
    (hread : ∀ r ∈ op.kind.pureSources visit, i.read (f r) = i.read r)
    (hvector : ∀ r ∈ op.kind.vectorSources visit, f r = r) :
    eval env { op with kind := op.kind.rewritePureSrcVregs visit f } i = eval env op i := by
  have hs (src : SrcOperand) (h : ∀ r ∈ src.plainReg, i.read (f r) = i.read r) :
      readSrcOperand i.read (src.rewrite f) = readSrcOperand i.read src :=
    readSrcOperand_rewrite h
  obtain ⟨pc, kind, hint⟩ := op
  cases kind
  case other o =>
    simp only [OpKind.pureSources, OpKind.vectorSources, OpKind.rewritePureSrcVregs, eval]
      at hread hvector ⊢
    cases hvisit : visit o with
    | none => rfl
    | some v =>
      simp only [hvisit, Option.elim_some, List.mem_append] at hread hvector ⊢
      exact v.eval_eq env i f hvector fun r hr => hread r (.inr hr)
  all_goals
    simp only [OpKind.pureSources, List.mem_cons, List.not_mem_nil, or_false,
      forall_eq_or_imp, forall_eq] at hread
  all_goals first
    | rfl
    | simp +contextual [OpKind.rewritePureSrcVregs, eval, *]

end Rewritten

section Correctness

variable (env : Env) (visit : ∀ o : OtherOp μ, Option o.Visited)

/-- Which recorded copies are certain to hold after an operation, given those that are
certain before it. A new copy needs a destination that stores 64 bits apart from the origin;
an old one needs both registers left alone, whether or not the operation lists them. -/
def intactAfter (copies : Copies) (intact : VReg → Bool) (kind : OpKind μ) (d : VReg) : Bool :=
  let kept := intact d && kind.spares env d && (copies d).all (kind.spares env)
  match kind.fullCopy with
  | some (dst, src) =>
    if d = dst then
      decide (storeMask env.arch dst = 0xFFFFFFFFFFFFFFFF ∧ ¬ Shares env.arch src dst)
    else kept
  | none => kept

/-- Only certain copies are used, and none of them for a vector. -/
def UsesIntact (copies : Copies) (intact : VReg → Bool) (op : SmirOp μ) : Prop :=
  ∀ r ∈ op.kind.pureSources visit, copies r ≠ none →
    intact r = true ∧ r ∉ op.kind.vectorSources visit

/-- A block in which every copy that is used is certain to hold. -/
def CopiesIntact (ops : List (SmirOp μ)) : Prop :=
  Throughout (copyStep visit)
    (fun copies intact op =>
      intactAfter env copies intact (op.propagate visit copies).kind)
    (UsesIntact visit) (fun _ => none) (fun _ => false) ops

variable [SmirMemory μ]

/-- The pass preserves the run from a state, and every source it replaces holds the value
of its replacement when it is used. -/
def PropagatesCopies (ops : List (SmirOp μ)) (m : Machine μ) : Prop :=
  runOps env (copyPropagation visit ops).1 m = runOps env ops m ∧
    AlongWith (exec env) (copyStep visit)
      (fun copies op m => ∀ r ∈ op.kind.pureSources visit,
        m.read env (copies.origin r) = m.read env r)
      (fun _ => none) ops m

/-- The invariant of the pass. -/
def CopiesHold (copies : Copies) (intact : VReg → Bool) (m : Machine μ) : Prop :=
  ∀ d s, copies d = some s → intact d = true → m.read env d = m.read env s

variable {env visit} {copies : Copies} {intact : VReg → Bool} {op : SmirOp μ}
  {m m' : Machine μ}

omit [SmirMemory μ] in
theorem CopiesHold.read_origin (hI : CopiesHold env copies intact m) {r : VReg}
    (h : copies r ≠ none → intact r = true) :
    m.read env (copies.origin r) = m.read env r := by
  cases hr : copies r with
  | none => simp [Copies.origin, hr]
  | some s =>
    have heq := hI r s hr (h (by simp [hr]))
    simp [Copies.origin, hr, heq]

omit [SmirMemory μ] in
theorem UsesIntact.origin_eq (h : UsesIntact visit copies intact op) {r : VReg}
    (hr : r ∈ op.kind.vectorSources visit) : copies.origin r = r := by
  have hpure : r ∈ op.kind.pureSources visit := by
    obtain ⟨pc, kind, hint⟩ := op
    cases kind
    case other o => cases hvisit : visit o <;> simp_all [OpKind.vectorSources, OpKind.pureSources]
    all_goals cases hr
  cases hcopy : copies r with
  | none => simp [Copies.origin, hcopy]
  | some s => exact absurd hr (h r hpure (by simp [hcopy])).2

/-- Rewriting through copies that hold changes no operation. -/
theorem exec_propagate (hread : ∀ r ∈ op.kind.pureSources visit,
      m.read env (copies.origin r) = m.read env r)
    (hvector : ∀ r ∈ op.kind.vectorSources visit, copies.origin r = r) :
    exec env (op.propagate visit copies) m = exec env op m := by
  have heval : eval env (op.propagate visit copies) (m.inputs env) =
      eval env op (m.inputs env) := eval_rewritePureSrcVregs hread hvector
  have hwrites : (op.propagate visit copies).kind.writesMemory = op.kind.writesMemory := by
    obtain ⟨pc, kind, hint⟩ := op
    cases kind
    case other o =>
      simp only [SmirOp.propagate, OpKind.rewritePureSrcVregs, OpKind.writesMemory]
      cases visit o with
      | none => rfl
      | some v => exact v.writesMemory_eq _
    all_goals rfl
  rw [exec, exec, heval, hwrites]

/-- After a 64-bit move the destination holds the value of the source, if it can. -/
theorem read_exec_mov {pc : Word} {hint : Bool} {dst src : VReg}
    (hmask : storeMask env.arch dst = 0xFFFFFFFFFFFFFFFF) (hsh : ¬ Shares env.arch src dst)
    (hexec : exec env ⟨pc, .mov dst (.reg src) .w64, hint⟩ m = .next m') :
    m'.read env dst = m'.read env src := by
  rw [exec_mov] at hexec
  obtain rfl := Outcome.next.inj hexec
  have hfull (v : Word) : v &&& 0xFFFFFFFFFFFFFFFF = v := BitVec.and_allOnes
  have hmerge (old v : Word) : (RegWrite.mk dst (.part .w64) v).merge old = v := by
    have hsub : OpWidth.isSub .w64 = false := rfl
    simp only [RegWrite.merge, hsub, Bool.and_false, Bool.false_eq_true, if_false]
    exact hfull v
  have hdst : (m.moveTo env dst .w64 (m.read env src)).read env dst = m.read env src := by
    simp only [Machine.read, Machine.moveTo, RegWrite.apply, hmerge]
    rw [RegFile.read_write_of_storeMask_ne (by rw [hmask]; decide), hmask, hfull]
  have hsrc : (m.moveTo env dst .w64 (m.read env src)).read env src = m.read env src :=
    RegWrite.read_apply_of_not_shares hsh
  exact hdst.trans hsrc.symm

theorem Copies.kill_eq_some {dests : List VReg} {d s : VReg}
    (h : copies.kill dests d = some s) : d ∉ dests ∧ copies d = some s ∧ s ∉ dests := by
  by_cases hd : d ∈ dests
  · simp [kill, hd] at h
  · simpa [kill, hd] using h

/-- One step keeps the invariant. -/
theorem CopiesHold.next (hI : CopiesHold env copies intact m) (hexec : exec env op m = .next m') :
    CopiesHold env ((copies.kill op.kind.dests).record op.kind)
      (intactAfter env copies intact op.kind) m' := by
  have kept {d s : VReg} (hd : copies.kill op.kind.dests d = some s)
      (h : (intact d && op.kind.spares env d && (copies d).all (op.kind.spares env)) = true) :
      m'.read env d = m'.read env s := by
    obtain ⟨-, hcopy, -⟩ := Copies.kill_eq_some hd
    simp only [hcopy, Option.all_some, Bool.and_eq_true] at h
    obtain ⟨⟨hint, hspd⟩, hsps⟩ := h
    rw [read_exec_of_spares hspd hexec, read_exec_of_spares hsps hexec]
    exact hI d s hcopy hint
  intro d s hd h
  cases hcopy : op.kind.fullCopy with
  | none =>
    simp only [Copies.record, intactAfter, hcopy] at hd h
    exact kept hd h
  | some p =>
    obtain ⟨dst, src⟩ := p
    have hmov := OpKind.eq_mov_of_fullCopy hcopy
    simp only [Copies.record, intactAfter, hcopy] at hd h
    by_cases hdst : d = dst
    · subst hdst
      rw [if_pos rfl, decide_eq_true_eq] at h
      have hdead : copies.kill op.kind.dests d = none := by
        simp [Copies.kill, hmov, OpKind.dests]
      by_cases hne : d = src
      · rw [if_neg (not_not.mpr hne), hdead] at hd
        cases hd
      · rw [if_pos hne, Function.update_self] at hd
        obtain rfl := Option.some.inj hd
        obtain ⟨pc, kind, hint⟩ := op
        obtain rfl : kind = .mov d (.reg src) .w64 := hmov
        exact read_exec_mov h.1 h.2 hexec
    · rw [if_neg hdst] at h
      refine kept ?_ h
      by_cases hne : dst = src
      · rwa [if_neg (not_not.mpr hne)] at hd
      · rwa [if_pos hne, Function.update_of_ne hdst] at hd

/-- Copy propagation preserves every run of a block whose used copies are certain. -/
theorem copyPropagation_propagatesCopies {ops : List (SmirOp μ)} (m : Machine μ)
    (h : CopiesIntact env visit ops) : PropagatesCopies env visit ops m := by
  have halong : AlongWith (exec env) (copyStep visit)
      (fun copies op m => (∀ r ∈ op.kind.pureSources visit,
          m.read env (copies.origin r) = m.read env r) ∧
        exec env (op.propagate visit copies) m = exec env op m)
      (fun _ => none) ops m := by
    have hreads {copies : Copies} {intact : VReg → Bool} {op : SmirOp μ} {m : Machine μ}
        (hI : CopiesHold env copies intact m) (hC : UsesIntact visit copies intact op) :
        ∀ r ∈ op.kind.pureSources visit, m.read env (copies.origin r) = m.read env r :=
      fun r hr => hI.read_origin fun hcopy => (hC r hr hcopy).1
    refine alongWith_of_invariant (P := fun _ _ => True) (CopiesHold env) ?_ ?_ ?_ h
      (along_of_forall (fun _ _ => trivial) ops m)
    · intro copies intact op m hI hC _
      exact ⟨hreads hI hC, exec_propagate (hreads hI hC) fun _ => hC.origin_eq⟩
    · intro copies intact op m m' hI hC _ hexec
      exact hI.next ((exec_propagate (hreads hI hC) fun _ => hC.origin_eq).trans hexec)
    · intro d s hd
      cases hd
  exact ⟨runSeq_rewriteSeq (halong.imp fun _ _ _ hQ => hQ.2), halong.imp fun _ _ _ hQ => hQ.1⟩

end Correctness

section Blocks

theorem VisitedSources.lengths_rewrite (f : VReg → VReg) (s : VisitedSources) :
    (s.rewrite f).lengths = s.lengths.map f := by
  cases s with
  | x86Sha32 => rfl
  | x86PackedStringCompare _ _ len1 len2 => cases len1 <;> cases len2 <;> rfl

/-- A stand-in for a string comparison: what it writes to RCX depends on the lengths. -/
def compareLengths (s : VisitedSources) : OtherOp FlatMemory :=
  { dests := [.rcx], sources := s.vectors ++ s.lengths, outWidth := some .w32,
    sideEffects := false, preciseDeopt := false, writesMemory := false, flagsWritten := ∅,
    flagsMustWrite := ∅, flagsRead := ∅, reads := s.lengths, flagReads := ∅, written := [.rcx],
    eval := fun _ i => i.done
      { writes := [⟨.rcx, .part .w32, (s.lengths.map i.read).foldl (· + ·) 0#64⟩] },
    eval_congr := fun _ _ _ h => by
      simp only [Inputs.done, h.mem, List.map_congr_left h.read],
    eval_written := fun _ _ _ h w hw => by
      obtain rfl := Except.ok.inj h
      simpa using congrArg RegWrite.dst (List.mem_singleton.mp hw) }

def compareLengthsVisited (s : VisitedSources) : (compareLengths s).Visited where
  sources := s
  withSources := compareLengths
  eval_eq _ i f _ hread := by
    have hmap : (s.lengths.map f).map i.read = s.lengths.map i.read := by
      rw [List.map_map]
      exact List.map_congr_left hread
    simp only [compareLengths, VisitedSources.lengths_rewrite, hmap]
  writesMemory_eq _ := rfl

/-- XMM0 and XMM1 with lengths in a temporary and in RDX. -/
def lengthInTemp : VisitedSources :=
  .x86PackedStringCompare (.arch (.x86 (.xmm 0))) (.arch (.x86 (.xmm 1))) (some (.virt 0))
    (some .rdx)

open Classical in
/-- The one comparison of the block is recognised. -/
noncomputable def visitCompare (o : OtherOp FlatMemory) : Option o.Visited :=
  if h : o = compareLengths lengthInTemp then some (h ▸ compareLengthsVisited lengthInTemp)
  else none

/-- The pattern that the pass is meant for: a copy to a temporary and its uses. -/
def copiedAddend : List (SmirOp FlatMemory) :=
  [⟨0, .mov (.virt 0) (.reg .rax) .w64, false⟩,
    ⟨0, .add .rcx .rcx (.reg (.virt 0)) .w64 .none, false⟩,
    ⟨0, .other (compareLengths lengthInTemp), false⟩]

theorem copiedAddend_propagatesCopies :
    CopiesIntact ⟨.x86, .x86_64, {}⟩ visitCompare copiedAddend ∧
      PropagatesCopies ⟨.x86, .x86_64, {}⟩ visitCompare copiedAddend (.blankWith .rax 5) := by
  have hvisit : visitCompare (compareLengths lengthInTemp) =
      some (compareLengthsVisited lengthInTemp) := by simp [visitCompare]
  have hintact : CopiesIntact ⟨.x86, .x86_64, {}⟩ visitCompare copiedAddend := by
    refine ⟨fun r hr h => absurd rfl h, ?_, ?_, trivial⟩
    · unfold UsesIntact
      decide
    · simp only [UsesIntact, OpKind.pureSources, OpKind.vectorSources, hvisit]
      decide
  exact ⟨hintact, copyPropagation_propagatesCopies _ hintact⟩

/-- No operation is one of the two. -/
def visitNone (o : OtherOp μ) : Option o.Visited := none

/-- A 64-bit value goes through a Hexagon register, which keeps the lower half of it. -/
def throughHexagon : List (SmirOp FlatMemory) :=
  [⟨0, .mov (.arch (.hexagon (.r 0))) (.reg (.virt 0)) .w64, false⟩,
    ⟨0, .mov (.virt 1) (.reg (.arch (.hexagon (.r 0)))) .w64, false⟩]

/-- The pass makes the second move read the temporary, with its upper half. -/
theorem throughHexagon_changes :
    ¬ PropagatesCopies ⟨.hexagon, .hexagon, {}⟩ visitNone throughHexagon
      { Machine.blank with
        regs := RegFile.write .hexagon Machine.blank.regs (.virt 0) 0x100000000 } := by
  rintro ⟨hrun, -⟩
  have hread := congrArg
    (fun o : Outcome _ _ => o.state.read ⟨.hexagon, .hexagon, {}⟩ (.virt 1)) hrun
  revert hread
  decide

end Blocks

end Rax.Smir

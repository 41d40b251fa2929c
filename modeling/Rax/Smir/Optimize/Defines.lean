import Rax.Smir.Optimize.RegFootprint

/-!
# What a fully defining operation determines

`op_fully_defines` lets liveness kill the destinations of an operation. Two runs of such an
operation from states that agree on its listed sources should therefore agree on its
destinations. They do when the registers it reads without listing them agree, for every
destination that it overwrites; a destination that it leaves alone (a conditional move that
is not taken, a cancelled predicated load, a failed access, a division error, the high half
of an 8-bit product) keeps its old value, so there the old values decide.
-/

namespace Rax.Smir

variable {μ : Type}

namespace OpKind

/-- Whether a load ends in a memory error. -/
def accessFails [SmirMemory μ] (env : Env) (i : Inputs μ) : OpKind μ → Bool
  | .load _ addr width ext =>
    (loadMemory i.mem (computeAddress env i addr) width ext).2.toBool == false
  | .predLoad _ cond addr width ext =>
    (i.read cond).bit 0 &&
      (loadMemory i.mem (computeAddress env i addr) width ext).2.toBool == false
  | .loadPair _ _ addr width =>
    let a := computeAddress env i addr
    let first := loadMemory i.mem a width .zero
    first.2.toBool == false ||
      (loadMemory first.1 (a + BitVec.ofNat 64 width.bytes) width .zero).2.toBool == false
  | _ => false

/-- Whether an operation leaves a listed destination as it was. -/
def leaves [SmirMemory μ] (env : Env) (i : Inputs μ) (d : VReg) (kind : OpKind μ) : Bool :=
  kind.accessFails env i || !((kind.targets env i).map Prod.fst).contains d

variable {env : Env} {i : Inputs μ} {kind : OpKind μ}

/-- Without a wide output width only temporaries are fully defined. -/
theorem dests_virtual (hfull : kind.fullyDefines = true)
    (hout : kind.outWidth = none ∨ kind.outWidth = some .w8) :
    ∀ d ∈ kind.dests, d.isVirtual = true := by
  simp only [fullyDefines, Bool.or_eq_true, List.isEmpty_iff, List.all_eq_true] at hfull
  rcases hfull with (hnil | hvirt) | hwide
  · rw [hnil]
    exact fun d hd => absurd hd List.not_mem_nil
  · exact hvirt
  · rcases hout with hout | hout <;> (rw [hout] at hwide; cases hwide)

/-- A hidden destination of a fully defining operation is not a temporary, but all its
listed destinations are. -/
theorem hiddenDests_spec {r : VReg} (hint : kind.isInteger = true)
    (hfull : kind.fullyDefines = true) (h : r ∈ kind.hiddenDests env) :
    r.isVirtual = false ∧ ∀ d ∈ kind.dests, d.isVirtual = true := by
  cases kind
  case other => cases hint
  case div signed quot rem src1 src2 width flags =>
    cases width with
    | w8 =>
      refine ⟨?_, dests_virtual hfull (Or.inr rfl)⟩
      simp only [hiddenDests] at h
      split at h
      · rw [List.mem_singleton.mp h]; rfl
      · cases h
    | _ => cases h
  case satN dst s satBits signed setOvf width =>
    cases setOvf with
    | false => cases h
    | true =>
      rw [List.mem_singleton.mp h]
      exact ⟨rfl, dests_virtual hfull (Or.inl rfl)⟩
  case cmpyW128Sat | satOrigShl =>
    rw [List.mem_singleton.mp h]
    exact ⟨rfl, dests_virtual hfull (Or.inl rfl)⟩
  all_goals cases h

/-- If a fully defining operation leaves a destination alone but writes something, the
destination is a temporary. -/
theorem isVirtual_of_not_target {d : VReg} {t : VReg × WriteMode}
    (hint : kind.isInteger = true) (hfull : kind.fullyDefines = true) (hd : d ∈ kind.dests)
    (hleave : d ∉ (kind.targets env i).map Prod.fst) (ht : t ∈ kind.targets env i) :
    d.isVirtual = true := by
  cases kind
  case other => cases hint
  case x86Cmpxchg dst s width flags =>
    have hrax := dests_virtual hfull (Or.inl rfl) .rax (by simp [dests])
    cases hrax
  case mul signed dstLo dstHi src1 src2 width flags =>
    by_cases hw : width = .w8
    · exact dests_virtual hfull (Or.inr (by simp [outWidth, hw])) d hd
    · refine absurd ?_ hleave
      cases dstHi <;> simpa [targets, dests, hw] using hd
  case div signed quot rem src1 src2 width flags =>
    by_cases hw : width = .w8
    · exact dests_virtual hfull (Or.inr (by simp [outWidth, hw])) d hd
    · refine absurd ?_ hleave
      simp only [targets] at ht ⊢
      cases hq : quotient env i signed src1 src2 width with
      | none => simp [hq] at ht
      | some qr => cases rem <;> simpa [dests, hw] using hd
  case clMul dst dstHi src1 src2 elemBits lanes acc =>
    exact dests_virtual hfull (Or.inl rfl) d hd
  case armDpRegShift kind dst rn rm rs sh flags =>
    cases dst with
    | none => cases hd
    | some d' => exact absurd (by simpa [targets, dests] using hd) hleave
  case cmove dst s cond width =>
    refine absurd ?_ hleave
    simp only [targets] at ht ⊢
    split at ht
    · next hc => simpa [dests, hc] using hd
    · cases ht
  case predLoad dst cond addr width ext =>
    exact dests_virtual hfull (Or.inl rfl) d hd
  case x86Xadd dst s width flags =>
    refine absurd ?_ hleave
    simp only [dests, List.mem_cons, List.not_mem_nil, or_false] at hd
    rcases hd with rfl | rfl <;> simp [targets]
  all_goals first
    | exact absurd hd List.not_mem_nil
    | exact absurd hd hleave

end OpKind

section Agreement

variable [SmirMemory μ] {env : Env} {op : SmirOp μ} {m m' : Machine μ}

/-- An operation with a destination completes unless its access fails. -/
theorem completes_of_not_accessFails {i : Inputs μ} {d : VReg}
    (hint : op.kind.isInteger = true) (hd : d ∈ op.kind.dests)
    (h : op.kind.accessFails env i = false) : ∃ eff, (eval env op i).2 = .ok eff := by
  obtain ⟨pc, kind, highByte⟩ := op
  cases kind
  case other => cases hint
  case load dst addr width ext =>
    simp only [OpKind.accessFails] at h
    simp only [eval, Interpret.load]
    rcases hl : loadMemory i.mem (computeAddress env i addr) width ext with ⟨mem, e | val⟩
    · rw [hl] at h
      cases h
    · exact ⟨_, rfl⟩
  case predLoad dst cond addr width ext =>
    simp only [OpKind.accessFails] at h
    simp only [eval, Interpret.load]
    split
    · next hc =>
      rw [hc, Bool.true_and] at h
      rcases hl : loadMemory i.mem (computeAddress env i addr) width ext with ⟨mem, e | val⟩
      · rw [hl] at h
        cases h
      · exact ⟨_, rfl⟩
    · exact ⟨_, rfl⟩
  case loadPair dst1 dst2 addr width =>
    simp only [OpKind.accessFails, Bool.or_eq_false_iff] at h
    simp only [eval, Interpret.loadPair]
    rcases hl : loadMemory i.mem (computeAddress env i addr) width .zero with ⟨mem, e | val⟩
    · rw [hl] at h
      cases h.1
    · rw [hl] at h
      simp only at h ⊢
      rcases hl' : loadMemory mem (computeAddress env i addr + BitVec.ofNat 64 width.bytes) width
        .zero with ⟨mem', e | val'⟩
      · rw [hl'] at h
        cases h.2
      · exact ⟨_, rfl⟩
  all_goals first
    | exact absurd hd List.not_mem_nil
    | exact ⟨_, rfl⟩

/-- Machines that agree on what an operation reads evaluate it alike. -/
theorem eval_eq_of_agree (hflags : m.flags.image = m'.flags.image) (hmem : m.mem = m'.mem)
    (hpc : op.kind.readsPc = true → m.pc = m'.pc)
    (hread : ∀ r ∈ op.kind.reads, m.read env r = m'.read env r) :
    eval env op (m.inputs env) = eval env op (m'.inputs env) :=
  eval_congr env op
    { read := hread
      bit := fun f _ => congrFun (congrArg FlagImage.bit hflags) f
      df := congrArg FlagImage.df hflags
      ac := congrArg FlagImage.ac hflags
      pc := hpc
      mem := hmem }

theorem error_of_accessFails {i : Inputs μ} (h : op.kind.accessFails env i = true) :
    ∃ e, (eval env op i).2 = .error e := by
  obtain ⟨pc, kind, highByte⟩ := op
  cases kind
  case load dst addr width ext =>
    simp only [OpKind.accessFails] at h
    simp only [eval, Interpret.load]
    rcases hl : loadMemory i.mem (computeAddress env i addr) width ext with ⟨mem, e | val⟩
    · exact ⟨e, rfl⟩
    · rw [hl] at h
      cases h
  case predLoad dst cond addr width ext =>
    simp only [OpKind.accessFails, Bool.and_eq_true] at h
    simp only [eval, Interpret.load, if_pos h.1]
    rcases hl : loadMemory i.mem (computeAddress env i addr) width ext with ⟨mem, e | val⟩
    · exact ⟨e, rfl⟩
    · rw [hl] at h
      cases h.2
  case loadPair dst1 dst2 addr width =>
    simp only [OpKind.accessFails, Bool.or_eq_true] at h
    simp only [eval, Interpret.loadPair]
    rcases hl : loadMemory i.mem (computeAddress env i addr) width .zero with ⟨mem, e | val⟩
    · exact ⟨e, rfl⟩
    · rw [hl] at h
      simp only at h ⊢
      rcases hl' : loadMemory mem (computeAddress env i addr + BitVec.ofNat 64 width.bytes) width
        .zero with ⟨mem', e | val'⟩
      · exact ⟨e, rfl⟩
      · rw [hl'] at h
        rcases h with h | h <;> cases h
  all_goals cases h

/-- The writes of a fully defining operation keep machines in agreement on every name on
which they agree, and make them agree on what is overwritten. -/
theorem writes_agree {eff : Effect} (hint : op.kind.isInteger = true)
    (hfull : op.kind.fullyDefines = true)
    (hread : ∀ r ∈ op.kind.reads, m.read env r = m'.read env r)
    (hsrc : ∀ r ∈ op.kind.sourceVregs, m.read env r = m'.read env r)
    (hev : (eval env op (m.inputs env)).2 = .ok eff) :
    let after (m : Machine μ) := (applyWrites env.arch eff.writes m.regs).read env.arch
    (∀ r, m.read env r = m'.read env r → after m r = after m' r) ∧
      ∀ w ∈ eff.writes, w.merges = false → takesWrite env.arch w.dst = true →
        after m w.dst = after m' w.dst := by
  refine RegFile.applyWrites_agree (A := fun r => m.read env r = m'.read env r)
    (fun r hr => hr) fun w hw hm => ?_
  rcases write_spec hev hw with (⟨-, hsources⟩ | ⟨-, hreads⟩) | ⟨htarget, hhidden⟩
  · exact Or.inl (hsrc _ (hsources hfull hm))
  · exact Or.inl (hread _ (hreads hint))
  · -- The sticky bit: the user status register may differ, but then nothing else is seen there.
    have hdst : w.dst = .usr := congrArg Prod.fst htarget
    by_cases husr : m.read env .usr = m'.read env .usr
    · exact Or.inl (by rw [hdst]; exact husr)
    · right
      rintro r hr hshare
      rw [hdst] at hshare
      obtain rfl := eq_of_shares_usr hshare
      rcases hr with hr | ⟨w', hw', hd', hm'⟩
      · exact husr hr
      · rcases write_spec hev hw' with (⟨hdest, -⟩ | ⟨-, hreads⟩) | ⟨htarget', -⟩
        · have hdest' : VReg.usr ∈ op.kind.dests := hd' ▸ hdest
          cases (OpKind.hiddenDests_spec hint hfull hhidden).2 _ hdest'
        · exact husr (hread _ (hd' ▸ hreads hint))
        · rw [RegWrite.merges_eq, htarget'] at hm'
          cases hm'

/-- A destination that is left alone is not written under another name either. -/
theorem not_shares_of_leaves {i : Inputs μ} {eff : Effect} {d : VReg}
    (hint : op.kind.isInteger = true) (hfull : op.kind.fullyDefines = true)
    (hd : d ∈ op.kind.dests) (hleave : op.kind.leaves env i d = true)
    (hev : (eval env op i).2 = .ok eff) : ∀ w ∈ eff.writes, ¬ Shares env.arch d w.dst := by
  intro w hw hshare
  have hnot : d ∉ (op.kind.targets env i).map Prod.fst := by
    simp only [OpKind.leaves, Bool.or_eq_true, Bool.not_eq_true', List.contains_eq_mem,
      decide_eq_false_iff_not] at hleave
    refine hleave.resolve_left fun hfail => ?_
    obtain ⟨e, he⟩ := error_of_accessFails hfail
    rw [hev] at he
    cases he
  have hdst (hvirt : d.isVirtual = true) : w.dst = d := by
    cases d with
    | virt id => exact eq_of_shares_virt hshare
    | _ => cases hvirt
  obtain ⟨sticky, hmap, hsticky⟩ := eval_targets hev
  have hmem : w.target ∈ sticky ++ op.kind.targets env i := hmap ▸ List.mem_map_of_mem hw
  rcases List.mem_append.mp hmem with hs | ht
  · rcases hsticky with rfl | ⟨rfl, husr⟩
    · cases hs
    · have hvirt := (OpKind.hiddenDests_spec hint hfull husr).2 d hd
      have heq : w.dst = .usr := congrArg Prod.fst (List.mem_singleton.mp hs)
      rw [← hdst hvirt, heq] at hvirt
      cases hvirt
  · have hvirt := OpKind.isVirtual_of_not_target hint hfull hd hnot ht
    exact hnot (hdst hvirt ▸ List.mem_map_of_mem (f := Prod.fst) ht)

theorem read_of_leaves {i : Inputs μ} {d : VReg} (hint : op.kind.isInteger = true)
    (hfull : op.kind.fullyDefines = true) (hd : d ∈ op.kind.dests)
    (hleave : op.kind.leaves env i d = true)
    (heval : eval env op (m.inputs env) = eval env op i) :
    (exec env op m).state.read env d = m.read env d := by
  cases hev : (eval env op (m.inputs env)).2 with
  | error e => rw [exec_state_of_error hev]; rfl
  | ok eff =>
    rw [exec_state_of_ok hev]
    exact RegFile.read_applyWrites_of_not_shares
      (not_shares_of_leaves hint hfull hd hleave (heval ▸ hev))

/-- Two runs of a fully defining operation that agree on flags, memory and listed sources,
and on the registers it reads without listing them, agree on every destination that it
overwrites. A destination that it leaves alone agrees exactly if it agreed before. -/
theorem fullyDefines_dests_agree (hint : op.kind.isInteger = true)
    (hfull : op.kind.fullyDefines = true) (hflags : m.flags.image = m'.flags.image)
    (hmem : m.mem = m'.mem) (hsrc : ∀ r ∈ op.kind.sourceVregs, m.read env r = m'.read env r)
    (hhidden : ∀ r ∈ op.kind.reads, r ∉ op.kind.sourceVregs → m.read env r = m'.read env r)
    (hpc : op.kind.readsPc = true → m.pc = m'.pc) (d : VReg) (hd : d ∈ op.kind.dests) :
    let before := m.read env d = m'.read env d
    let after := (exec env op m).state.read env d = (exec env op m').state.read env d
    let leaves := op.kind.leaves env (m.inputs env) d = true
    (¬ leaves ∧ takesWrite env.arch d = true ∨ before → after) ∧
      (leaves → (after ↔ before)) := by
  intro before after leaves
  have hread (r : VReg) (hr : r ∈ op.kind.reads) : m.read env r = m'.read env r := by
    by_cases hs : r ∈ op.kind.sourceVregs
    · exact hsrc r hs
    · exact hhidden r hr hs
  have heval := eval_eq_of_agree hflags hmem hpc hread
  constructor
  · intro hcond
    cases hev : (eval env op (m.inputs env)).2 with
    | error e =>
      have hev' := heval ▸ hev
      have hbefore : before := by
        refine hcond.resolve_left fun ⟨hleave, _⟩ => ?_
        have hfine : op.kind.accessFails env (m.inputs env) = false := by
          cases hf : op.kind.accessFails env (m.inputs env) with
          | false => rfl
          | true => exact absurd (by simp [leaves, OpKind.leaves, hf]) hleave
        obtain ⟨eff, heff⟩ := completes_of_not_accessFails hint hd hfine
        rw [hev] at heff
        cases heff
      simp only [after, exec_state_of_error hev, exec_state_of_error hev']
      exact hbefore
    | ok eff =>
      have hev' := heval ▸ hev
      obtain ⟨hkeep, hover⟩ := writes_agree hint hfull hread hsrc hev
      simp only [after, exec_state_of_ok hev, exec_state_of_ok hev']
      rcases hcond with ⟨hleave, htake⟩ | hbefore
      · -- The destination is a target, so some write overwrites it or merges into a source.
        have htarget : d ∈ (op.kind.targets env (m.inputs env)).map Prod.fst := by
          by_contra hnot
          exact hleave (by simp [leaves, OpKind.leaves, hnot])
        obtain ⟨t, ht, rfl⟩ := List.mem_map.mp htarget
        obtain ⟨sticky, hmap, -⟩ := eval_targets hev
        obtain ⟨w, hw, rfl⟩ := List.mem_map.mp
          (hmap ▸ List.mem_append_right sticky ht : t ∈ eff.writes.map RegWrite.target)
        cases hm : w.merges with
        | false => exact hover w hw hm htake
        | true =>
          refine hkeep w.dst ?_
          rcases OpKind.target_spec ht with ⟨-, hsources⟩ | ⟨-, hreads⟩
          · exact hsrc _ (hsources hfull hm)
          · exact hread _ (hreads hint)
      · exact hkeep d hbefore
  · intro hleave
    simp only [after, read_of_leaves hint hfull hd hleave rfl,
      read_of_leaves hint hfull hd hleave heval.symm, before]

end Agreement

/-- A move between registers that differ elsewhere. -/
theorem fullyDefines_dests_agree_mov :
    let env : Env := { arch := .x86, sourceArch := .x86_64 }
    let op : SmirOp FlatMemory := ⟨0, .mov .rax (.reg .rcx) .w32, false⟩
    (exec env op Machine.blank).state.read env .rax =
      (exec env op (Machine.blankWith .rax 7)).state.read env .rax := by
  intro env op
  have hagree (r : VReg) (hr : r = .rcx) :
      Machine.blank.read env r = (Machine.blankWith .rax 7).read env r := by
    subst hr
    rfl
  exact (@fullyDefines_dests_agree _ _ env op Machine.blank (Machine.blankWith .rax 7)
    rfl rfl rfl rfl (fun r hr => hagree r (List.mem_singleton.mp hr))
    (fun r hr _ => hagree r (List.mem_singleton.mp hr))
    (fun h => by cases h) .rax (List.mem_singleton_self _)).1 (Or.inl ⟨by decide, rfl⟩)

/-- Two ways in which a fully defining operation depends on more than its listed sources: a
conditional move that is not taken keeps its destination, and a shifted operand is not
listed. -/
theorem fullyDefines_depends_on_unlisted :
    let env : Env := { arch := .x86, sourceArch := .x86_64 }
    let Differs (op : SmirOp FlatMemory) (m m' : Machine FlatMemory) : Prop :=
      op.kind.isInteger = true ∧ op.kind.fullyDefines = true ∧
        m.flags.image = m'.flags.image ∧ m.mem = m'.mem ∧ m.pc = m'.pc ∧
        (∀ r ∈ op.kind.sourceVregs, m.read env r = m'.read env r) ∧
        VReg.rax ∈ op.kind.dests ∧
        (exec env op m).state.read env .rax ≠ (exec env op m').state.read env .rax
    Differs ⟨0, .cmove .rax .rcx .eq .w64, false⟩ Machine.blank (Machine.blankWith .rax 7) ∧
      Differs ⟨0, .add .rax .rbx (.shifted .rcx .lsl 0) .w64 .none, false⟩ Machine.blank
        (Machine.blankWith .rcx 7) := by
  intro env Differs
  refine ⟨⟨rfl, rfl, rfl, rfl, rfl, ?_, List.mem_singleton_self _, by decide⟩,
    ⟨rfl, rfl, rfl, rfl, rfl, ?_, List.mem_singleton_self _, by decide⟩⟩
  · intro r hr
    obtain rfl := List.mem_singleton.mp hr
    rfl
  · intro r hr
    obtain rfl := List.mem_singleton.mp hr
    rfl

end Rax.Smir

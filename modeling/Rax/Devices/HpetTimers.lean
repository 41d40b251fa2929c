import Mathlib
import Rax.Devices.Hpet

/-!
# Ticks of the event timers

A periodic timer fires on time as long as its comparator stays within one period ahead of the last
tick. A tick that fires re-arms it there; a tick that does not reach it leaves it there. A tick that
passes the comparator while the interrupt is disabled does neither: the comparator is left behind
the counter, and the timer is then silent until the counter has gone all the way round.
-/

namespace Rax.Devices.Hpet

variable {prev now target : Word}

theorem crossed_iff : crossed prev now target = true ↔ InWindow prev now target := by
  unfold crossed InWindow ahead
  split <;> simp only [Bool.and_eq_true, Bool.or_eq_true, decide_eq_true_eq] <;> bv_omega

/-! ## Re-arming -/

/-- The comparator goes on by whole periods, to within one period after the counter. -/
theorem periodicRearmAfter_spec (now comparator : Word) {period : Word} (hp : period ≠ 0) :
    0 < ahead now (periodicRearmAfter comparator period now) ∧
      ahead now (periodicRearmAfter comparator period now) ≤ period.toNat ∧
      ∃ k, ahead comparator now + ahead now (periodicRearmAfter comparator period now) =
        k * period.toNat := by
  have hpos : 0 < period.toNat := by
    refine Nat.pos_of_ne_zero fun h => hp ?_
    exact BitVec.eq_of_toNat_eq h
  have hmod := Nat.mod_lt (ahead comparator now) hpos
  have hdiv := Nat.div_add_mod (ahead comparator now) period.toNat
  have hgap : (ahead comparator now / period.toNat + 1) * period.toNat =
      ahead comparator now + (period.toNat - ahead comparator now % period.toNat) := by
    rw [Nat.add_mul, Nat.mul_comm (_ / _)]
    omega
  have hrearm : periodicRearmAfter comparator period now =
      now + BitVec.ofNat 64 (period.toNat - ahead comparator now % period.toNat) := by
    have hunfold : periodicRearmAfter comparator period now =
        comparator + BitVec.ofNat 64 ((ahead comparator now / period.toNat + 1) * period.toNat) :=
      rfl
    rw [hunfold, hgap, BitVec.ofNat_add, ← BitVec.add_assoc, add_ahead]
  have hlt : period.toNat - ahead comparator now % period.toNat < 2 ^ 64 :=
    Nat.lt_of_le_of_lt (Nat.sub_le _ _) period.isLt
  have hahead : ahead now (periodicRearmAfter comparator period now) =
      period.toNat - ahead comparator now % period.toNat := by
    rw [hrearm, ahead_add now hlt]
  exact ⟨by omega, by omega, ahead comparator now / period.toNat + 1, by rw [hahead, hgap]⟩

/-! ## One tick -/

/-- A timer that fires in a tick from one counter value to another. -/
def fires (prev now : Word) (t : HpetTimer) : Bool := t.intEnabled && crossed prev now t.comparator

/-- A timer after a tick. -/
def ticked (prev now : Word) (t : HpetTimer) : HpetTimer :=
  if fires prev now t && (t.isPeriodic && t.period != 0) then
    { t with comparator := periodicRearmAfter t.comparator t.period now }
  else t

theorem tickTimer_eq (prev now : Word) (s : Hpet) (idx : Fin 3) :
    tickTimer prev now s idx = { s with
      intStatus := if fires prev now (s.timers idx) then s.intStatus ||| (1 : Word) <<< idx.val
        else s.intStatus
      timers := Function.update s.timers idx (ticked prev now (s.timers idx)) } := by
  unfold tickTimer ticked fires
  dsimp only
  cases (s.timers idx).intEnabled with
  | false => simp
  | true =>
    cases crossed prev now (s.timers idx).comparator with
    | false => simp
    | true => cases (s.timers idx).isPeriodic && (s.timers idx).period != 0 <;> simp

theorem getLsbD_bit (i j : Fin 3) : ((1 : Word) <<< i.val).getLsbD j.val = decide (i = j) := by
  revert i j
  decide

theorem tickTimer_intStatus (prev now : Word) (s : Hpet) (i j : Fin 3) :
    (tickTimer prev now s j).intStatus.getLsbD i.val =
      (s.intStatus.getLsbD i.val || (decide (j = i) && fires prev now (s.timers j))) := by
  rw [tickTimer_eq]
  cases fires prev now (s.timers j) with
  | false => simp
  | true => simp only [if_true, BitVec.getLsbD_or, getLsbD_bit, Bool.and_true]

theorem tickTimer_timers (prev now : Word) (s : Hpet) (i j : Fin 3) :
    (tickTimer prev now s j).timers i =
      if j = i then ticked prev now (s.timers i) else s.timers i := by
  rw [tickTimer_eq]
  by_cases hji : j = i
  · subst hji
    simp
  · simp [hji, Function.update_of_ne (Ne.symm hji)]

/-- The timers of a list take one step each, and the others none. -/
theorem foldl_tickTimer (prev now : Word) (l : List (Fin 3)) (hl : l.Nodup) (s : Hpet)
    (i : Fin 3) :
    (l.foldl (tickTimer prev now) s).timers i =
        (if i ∈ l then ticked prev now (s.timers i) else s.timers i) ∧
      (l.foldl (tickTimer prev now) s).intStatus.getLsbD i.val =
        (s.intStatus.getLsbD i.val || (decide (i ∈ l) && fires prev now (s.timers i))) ∧
      (l.foldl (tickTimer prev now) s).running = s.running ∧
      (l.foldl (tickTimer prev now) s).lastCounter = s.lastCounter := by
  induction l generalizing s with
  | nil => simp
  | cons j l ih =>
    obtain ⟨hj, hl⟩ := List.nodup_cons.mp hl
    obtain ⟨htimer, hbit, hrun, hlast⟩ := ih hl (tickTimer prev now s j)
    rw [List.foldl_cons, htimer, hbit, hrun, hlast, tickTimer_intStatus, tickTimer_timers]
    refine ⟨?_, ?_, by rw [tickTimer_eq], by rw [tickTimer_eq]⟩
    · by_cases hji : j = i
      · subst hji
        simp [hj]
      · simp [hji, Ne.symm hji]
    · by_cases hji : j = i
      · subst hji
        simp [hj]
      · simp [hji, Ne.symm hji]

variable {s : Hpet} {idx : Fin 3}

theorem tickAtCounter_timers (s : Hpet) (now : Word) (idx : Fin 3) :
    (s.tickAtCounter now).timers idx = ticked s.lastCounter now (s.timers idx) := by
  have h := (foldl_tickTimer s.lastCounter now (List.finRange 3) (List.nodup_finRange 3)
    { s with lastCounter := now } idx).1
  rw [if_pos (List.mem_finRange idx)] at h
  exact h

theorem tickAtCounter_intStatus (s : Hpet) (now : Word) (idx : Fin 3) :
    (s.tickAtCounter now).intStatus.getLsbD idx.val =
      (s.intStatus.getLsbD idx.val || fires s.lastCounter now (s.timers idx)) := by
  have h := (foldl_tickTimer s.lastCounter now (List.finRange 3) (List.nodup_finRange 3)
    { s with lastCounter := now } idx).2.1
  rw [decide_eq_true (List.mem_finRange idx), Bool.true_and] at h
  exact h

theorem tickAtCounter_running (s : Hpet) (now : Word) :
    (s.tickAtCounter now).running = s.running ∧ (s.tickAtCounter now).lastCounter = now :=
  (foldl_tickTimer s.lastCounter now (List.finRange 3) (List.nodup_finRange 3)
    { s with lastCounter := now } 0).2.2

theorem tick_eq (hrun : s.running = true) (now : Nat) :
    s.tick now = s.tickAtCounter (s.mainCounter now) := by
  simp [tick, hrun]

/-! ## Writes that leave a timer's schedule alone -/

/-- An offset that means a register of a timer. -/
def IsTimerReg (idx : Fin 3) (sub offset : Word) : Prop :=
  regTimerBase ≤ offset ∧ timerIndex offset = idx.val ∧ timerSub offset = sub

/-- A write that does not stop or set the counter, set the timer's comparator or change its mode.
It may enable or disable its interrupt. -/
structure Spares (idx : Fin 3) (periodic : Bool) (offset value : Word) : Prop where
  genConfig : offset ≠ regGenConfig
  mainCounter : offset ≠ regMainCounter
  comparator : ¬IsTimerReg idx 0x08 offset
  mode : IsTimerReg idx 0x00 offset → value.getLsbD 3 = periodic

/-- What the schedule of a timer depends on. -/
structure SameSchedule (idx : Fin 3) (s s' : Hpet) : Prop where
  running : s'.running = s.running
  lastCounter : s'.lastCounter = s.lastCounter
  comparator : (s'.timers idx).comparator = (s.timers idx).comparator
  period : (s'.timers idx).period = (s.timers idx).period
  isPeriodic : (s'.timers idx).isPeriodic = (s.timers idx).isPeriodic

theorem isPeriodic_writeTimer (t : HpetTimer) (value : Word) :
    (writeTimer t 0x00 value).isPeriodic = value.getLsbD 3 := by
  have hmask : tnCfgWriteMask.getLsbD 3 = true := by decide
  simp only [writeTimer, if_true, HpetTimer.isPeriodic, BitVec.getLsbD_or, BitVec.getLsbD_and,
    BitVec.getLsbD_not, hmask]
  simp

theorem sameSchedule_writeReg {offset value : Word} (s : Hpet) (now : Nat)
    (h : Spares idx (s.timers idx).isPeriodic offset value) :
    SameSchedule idx s (s.writeReg now offset value) := by
  have hsame : SameSchedule idx s s := ⟨rfl, rfl, rfl, rfl, rfl⟩
  unfold writeReg
  rw [if_neg h.genConfig, if_neg h.mainCounter]
  by_cases hcap : offset = regGenCapId
  · rw [if_pos hcap]
    exact hsame
  rw [if_neg hcap]
  by_cases hstat : offset = regGenIntStatus
  · rw [if_pos hstat]
    exact ⟨rfl, rfl, rfl, rfl, rfl⟩
  rw [if_neg hstat]
  by_cases hbase : regTimerBase ≤ offset
  · rw [if_pos hbase]
    by_cases hidx : timerIndex offset < 3
    · rw [dif_pos hidx]
      by_cases hi : (⟨timerIndex offset, hidx⟩ : Fin 3) = idx
      · have hval : timerIndex offset = idx.val := congrArg Fin.val hi
        have hcmp : timerSub offset ≠ 0x08 := fun hsub => h.comparator ⟨hbase, hval, hsub⟩
        rw [hi]
        by_cases hzero : timerSub offset = 0x00
        · have hmode := h.mode ⟨hbase, hval, hzero⟩
          refine ⟨rfl, rfl, ?_, ?_, ?_⟩ <;> simp only [Function.update_self, hzero]
          · rfl
          · rfl
          · rw [isPeriodic_writeTimer, hmode]
        · refine ⟨rfl, rfl, ?_, ?_, ?_⟩ <;>
            simp only [Function.update_self, writeTimer, if_neg hzero, if_neg hcmp] <;> split <;> rfl
      · have hne : idx ≠ (⟨timerIndex offset, hidx⟩ : Fin 3) := Ne.symm hi
        refine ⟨rfl, rfl, ?_, ?_, ?_⟩ <;> simp only [Function.update_of_ne hne]
    · rw [dif_neg hidx]
      exact hsame
  · rw [if_neg hbase]
    exact hsame

/-! ## Runs -/

inductive HpetOp
  | tick (now : Nat)
  | write (now : Nat) (offset value : Word)

def HpetOp.Spares (idx : Fin 3) (periodic : Bool) : HpetOp → Prop
  | .tick _ => True
  | .write _ offset value => Hpet.Spares idx periodic offset value

/-- What holds of every tick of a run, said of the state before it and its time. -/
def EachTick (P : Hpet → Nat → Prop) : Hpet → List HpetOp → Prop
  | _, [] => True
  | s, .tick now :: ops => P s now ∧ EachTick P (s.tick now) ops
  | s, .write now offset value :: ops => EachTick P (s.writeReg now offset value) ops

/-- The window of a tick holds the comparator of a timer. -/
def Passes (idx : Fin 3) (s : Hpet) (now : Nat) : Prop :=
  InWindow s.lastCounter (s.mainCounter now) (s.timers idx).comparator

/-- The tick does not pass the comparator while the timer's interrupt is disabled. -/
def NotMissed (idx : Fin 3) (s : Hpet) (now : Nat) : Prop :=
  Passes idx s now → (s.timers idx).intEnabled = true

/-- A tick of a periodic timer: with the interrupt enabled, and a period after the last tick, it
sets the status bit; and when it fires, the comparator goes on by whole periods to within one period
after the counter. -/
structure PeriodicTick (idx : Fin 3) (s : Hpet) (now : Nat) : Prop where
  onTime : (s.timers idx).intEnabled = true →
    (s.timers idx).period.toNat ≤ ahead s.lastCounter (s.mainCounter now) →
    (s.tick now).intStatus.getLsbD idx.val = true
  rearmed : (s.timers idx).intEnabled = true → Passes idx s now →
    0 < ahead (s.mainCounter now) ((s.tick now).timers idx).comparator ∧
      ahead (s.mainCounter now) ((s.tick now).timers idx).comparator ≤
        (s.timers idx).period.toNat ∧
      ∃ k, ahead (s.timers idx).comparator (s.mainCounter now) +
        ahead (s.mainCounter now) ((s.tick now).timers idx).comparator =
          k * (s.timers idx).period.toNat

/-- A tick of a one-shot timer sets the status bit exactly when it passes the comparator. -/
def OneShotTick (idx : Fin 3) (s : Hpet) (now : Nat) : Prop :=
  (s.tick now).intStatus.getLsbD idx.val = true ↔
    s.intStatus.getLsbD idx.val = true ∨ Passes idx s now

/-- The comparator is ahead of the last tick, by at most one period. -/
structure Armed (idx : Fin 3) (s : Hpet) : Prop where
  running : s.running = true
  periodic : (s.timers idx).isPeriodic = true
  period : (s.timers idx).period ≠ 0
  ahead_pos : 0 < ahead s.lastCounter (s.timers idx).comparator
  ahead_le : ahead s.lastCounter (s.timers idx).comparator ≤ (s.timers idx).period.toNat

theorem Armed.of_sameSchedule {s s' : Hpet} (h : Armed idx s) (hs : SameSchedule idx s s') :
    Armed idx s' where
  running := hs.running.trans h.running
  periodic := hs.isPeriodic.trans h.periodic
  period := hs.period ▸ h.period
  ahead_pos := by
    rw [hs.lastCounter, hs.comparator]
    exact h.ahead_pos
  ahead_le := by
    rw [hs.lastCounter, hs.comparator, hs.period]
    exact h.ahead_le

theorem fires_iff (s : Hpet) (now : Nat) (idx : Fin 3) :
    fires s.lastCounter (s.mainCounter now) (s.timers idx) = true ↔
      (s.timers idx).intEnabled = true ∧ Passes idx s now := by
  rw [fires, Bool.and_eq_true, crossed_iff]
  rfl

theorem tick_intStatus (hrun : s.running = true) (now : Nat) (idx : Fin 3) :
    (s.tick now).intStatus.getLsbD idx.val = true ↔
      s.intStatus.getLsbD idx.val = true ∨
        ((s.timers idx).intEnabled = true ∧ Passes idx s now) := by
  rw [tick_eq hrun, tickAtCounter_intStatus, Bool.or_eq_true, fires_iff]

theorem tick_comparator (hrun : s.running = true) (hper : (s.timers idx).isPeriodic = true)
    (hp : (s.timers idx).period ≠ 0) (now : Nat) (hen : (s.timers idx).intEnabled = true)
    (hpass : Passes idx s now) :
    ((s.tick now).timers idx).comparator =
      periodicRearmAfter (s.timers idx).comparator (s.timers idx).period (s.mainCounter now) := by
  have hf := (fires_iff s now idx).mpr ⟨hen, hpass⟩
  have hne : ((s.timers idx).period != 0) = true := by simpa using hp
  rw [tick_eq hrun, tickAtCounter_timers, ticked, hf, hper, hne]
  rfl

theorem tick_timers_of_not_passes (hrun : s.running = true) (now : Nat)
    (hpass : ¬Passes idx s now) : (s.tick now).timers idx = s.timers idx := by
  have hf : fires s.lastCounter (s.mainCounter now) (s.timers idx) = false := by
    rw [Bool.eq_false_iff]
    intro h
    exact hpass ((fires_iff s now idx).mp h).2
  rw [tick_eq hrun, tickAtCounter_timers, ticked, hf]
  rfl

theorem ticked_isPeriodic (prev now : Word) (t : HpetTimer) :
    (ticked prev now t).isPeriodic = t.isPeriodic ∧ (ticked prev now t).period = t.period := by
  unfold ticked
  split <;> exact ⟨rfl, rfl⟩

theorem tick_isPeriodic (hrun : s.running = true) (now : Nat) (idx : Fin 3) :
    ((s.tick now).timers idx).isPeriodic = (s.timers idx).isPeriodic ∧
      ((s.tick now).timers idx).period = (s.timers idx).period := by
  rw [tick_eq hrun, tickAtCounter_timers]
  exact ticked_isPeriodic _ _ _

theorem tick_running (hrun : s.running = true) (now : Nat) :
    (s.tick now).running = true ∧ (s.tick now).lastCounter = s.mainCounter now := by
  have h := tickAtCounter_running s (s.mainCounter now)
  rw [tick_eq hrun]
  exact ⟨h.1.trans hrun, h.2⟩

/-- An armed timer stays armed over a tick that does not miss it. -/
theorem Armed.tick (h : Armed idx s) (now : Nat) (hseen : NotMissed idx s now) :
    Armed idx (s.tick now) := by
  obtain ⟨hrun, hlast⟩ := tick_running h.running now
  obtain ⟨hper, hperiod⟩ := tick_isPeriodic h.running now idx
  by_cases hpass : Passes idx s now
  · have hcmp := tick_comparator h.running h.periodic h.period now (hseen hpass) hpass
    obtain ⟨hpos, hle, -⟩ :=
      periodicRearmAfter_spec (s.mainCounter now) (s.timers idx).comparator h.period
    refine ⟨hrun, hper.trans h.periodic, hperiod ▸ h.period, ?_, ?_⟩
    · rw [hlast, hcmp]
      exact hpos
    · rw [hlast, hcmp, hperiod]
      exact hle
  · have hsame := tick_timers_of_not_passes h.running now hpass
    obtain ⟨hpos, hsum⟩ := ahead_of_not_inWindow h.ahead_pos hpass
    have hle := h.ahead_le
    refine ⟨hrun, hper.trans h.periodic, hperiod ▸ h.period, ?_, ?_⟩
    · rw [hlast, hsame]
      exact hpos
    · rw [hlast, hsame]
      omega

theorem Armed.periodicTick (h : Armed idx s) (now : Nat) : PeriodicTick idx s now where
  onTime hen hlong := by
    refine (tick_intStatus h.running now idx).mpr (.inr ⟨hen, h.ahead_pos, ?_⟩)
    exact Nat.le_trans h.ahead_le hlong
  rearmed hen hpass := by
    rw [tick_comparator h.running h.periodic h.period now hen hpass]
    exact periodicRearmAfter_spec _ _ h.period

theorem oneShotTick (hrun : s.running = true) (now : Nat) (hseen : NotMissed idx s now) :
    OneShotTick idx s now := by
  unfold OneShotTick
  rw [tick_intStatus hrun]
  constructor
  · rintro (hbit | ⟨-, hpass⟩)
    · exact .inl hbit
    · exact .inr hpass
  · rintro (hbit | hpass)
    · exact .inl hbit
    · exact .inr ⟨hseen hpass, hpass⟩

/-- A property that steps keep, and that gives what holds of a tick, holds along a run. -/
theorem eachTick_of_invariant {I : Hpet → Prop} {P Q : Hpet → Nat → Prop} {periodic : Bool}
    (hmode : ∀ s, I s → (s.timers idx).isPeriodic = periodic)
    (hwrite : ∀ s s', I s → SameSchedule idx s s' → I s')
    (htick : ∀ s now, I s → P s now → I (s.tick now) ∧ Q s now) {ops : List HpetOp}
    (hops : ∀ op ∈ ops, op.Spares idx periodic) (hs : I s) (h : EachTick P s ops) :
    EachTick Q s ops := by
  induction ops generalizing s with
  | nil => trivial
  | cons op ops ih =>
    have hrest : ∀ op' ∈ ops, op'.Spares idx periodic := fun op' hop' =>
      hops op' (List.mem_cons_of_mem op hop')
    cases op with
    | tick now =>
      obtain ⟨hI, hQ⟩ := htick s now hs h.1
      exact ⟨hQ, ih hrest hI h.2⟩
    | write now offset value =>
      have hsp : Hpet.Spares idx (s.timers idx).isPeriodic offset value := by
        rw [hmode s hs]
        exact hops _ List.mem_cons_self
      exact ih hrest (hwrite s _ hs (sameSchedule_writeReg s now hsp)) h

/-- Along a run in which no tick passes the comparator of a timer while its interrupt is disabled,
every tick does what it should: a periodic timer that starts within one period of the last tick
fires on time and is re-armed by whole periods, and a one-shot timer fires when it is passed. -/
theorem timer_fires_on_time (idx : Fin 3) (s : Hpet) (hrun : s.running = true)
    (ops : List HpetOp) (hops : ∀ op ∈ ops, op.Spares idx (s.timers idx).isPeriodic)
    (hseen : EachTick (NotMissed idx) s ops) :
    ((s.timers idx).isPeriodic = true → (s.timers idx).period ≠ 0 →
        0 < ahead s.lastCounter (s.timers idx).comparator →
        ahead s.lastCounter (s.timers idx).comparator ≤ (s.timers idx).period.toNat →
        EachTick (PeriodicTick idx) s ops) ∧
      ((s.timers idx).isPeriodic = false → EachTick (OneShotTick idx) s ops) := by
  constructor
  · intro hper hp hpos hle
    have harmed : Armed idx s := ⟨hrun, hper, hp, hpos, hle⟩
    rw [hper] at hops
    exact eachTick_of_invariant (fun _ h => h.periodic) (fun _ _ h hs => h.of_sameSchedule hs)
      (fun _ now h hm => ⟨h.tick now hm, h.periodicTick now⟩) hops harmed hseen
  · intro hone
    rw [hone] at hops
    refine eachTick_of_invariant
      (I := fun s => s.running = true ∧ (s.timers idx).isPeriodic = false)
      (fun _ h => h.2) (fun _ _ h hs => ⟨hs.running.trans h.1, hs.isPeriodic.trans h.2⟩)
      (fun _ now h hm => ⟨⟨(tick_running h.1 now).1, (tick_isPeriodic h.1 now idx).1.trans h.2⟩,
        oneShotTick h.1 now hm⟩) hops ⟨hrun, hone⟩ hseen

/-- Timer 0 periodic with a period of 100 counts, its interrupt as given, and the counter started. -/
def sampleTimer (config : Word) : Hpet :=
  (((new 0).writeReg 0 0x100 config).writeReg 0 0x108 100).writeReg 0 0x010 1

theorem sample_timer_fires :
    EachTick (PeriodicTick 0) (sampleTimer 0xC) [.tick 15000, .write 15000 0x020 1, .tick 40000] :=
  (timer_fires_on_time 0 (sampleTimer 0xC) (by decide +kernel)
    [.tick 15000, .write 15000 0x020 1, .tick 40000]
    (by
      intro op hop
      simp only [List.mem_cons, List.not_mem_nil, or_false] at hop
      rcases hop with rfl | rfl | rfl
      · trivial
      · exact ⟨by decide, by decide, fun h => absurd h.1 (by decide), fun h => absurd h.1 (by decide)⟩
      · trivial)
    (by
      refine ⟨fun _ => ?_, fun _ => ?_, trivial⟩ <;> decide +kernel)).1
    (by decide +kernel) (by decide +kernel) (by decide +kernel) (by decide +kernel)

/-- The interrupt is disabled while the counter passes the comparator at 100, and is then enabled.
The next tick, 250 counts later, does not set the status bit. -/
theorem disabled_tick_silences_timer :
    ((((sampleTimer 0x8).tick 15000).writeReg 15000 0x100 0xC).timers 0).isPeriodic = true ∧
      ((((sampleTimer 0x8).tick 15000).writeReg 15000 0x100 0xC).timers 0).intEnabled = true ∧
      ((((sampleTimer 0x8).tick 15000).writeReg 15000 0x100 0xC).timers 0).period = 100 ∧
      ahead (((sampleTimer 0x8).tick 15000).writeReg 15000 0x100 0xC).lastCounter
        ((((sampleTimer 0x8).tick 15000).writeReg 15000 0x100 0xC).mainCounter 40000) = 250 ∧
      ((((sampleTimer 0x8).tick 15000).writeReg 15000 0x100 0xC).tick 40000).intStatus = 0 := by
  decide +kernel

end Rax.Devices.Hpet

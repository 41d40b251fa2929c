import Rax.Devices.Pic

/-!
# Fully nested mode

One controller without rotation commands, special mask mode and automatic EOI. The lines that were
acknowledged and not yet ended form a stack whose ranks grow from the top down, because a line in
service holds back every line of no higher priority; the in-service register is that stack read as
a set. A non-specific EOI takes the line of lowest rank, which is the top.
-/

namespace Rax.Devices

namespace Pic8259

/-- Initialised, and in fully nested mode. -/
structure FullyNested (p : Pic8259) : Prop where
  ready : p.initState = .ready
  endsByCommand : p.autoEoi = false
  noSpecialMask : p.specialMaskMode = false

/-- Acknowledge the line that `highest_pending` selects, if any. -/
def inta (p : Pic8259) : Option (BitVec 8) × Pic8259 :=
  match p.highestPending with
  | some irq => (some irq, (p.ackIrq irq).2)
  | none => (none, p)

/-- The non-specific EOI command; its level field is not looked at. -/
def eoiCommand (level : BitVec 3) : BitVec 8 := 0x20#8 ||| level.setWidth 8

theorem writeCommand_eoi (p : Pic8259) (level : BitVec 3) :
    p.writeCommand (eoiCommand level) = p.clearHighestIsr.2 := by
  have hbits : (eoiCommand level).getLsbD 4 = false ∧ (eoiCommand level).getLsbD 3 = false ∧
      ((eoiCommand level >>> 5) &&& 7#8).toNat = 1 := by
    revert level
    decide
  obtain ⟨hicw1, hocw3, hcommand⟩ := hbits
  rw [writeCommand, hicw1, hocw3, writeOcw2]
  simp [hcommand]

end Pic8259

/-- What happens to a controller in fully nested mode. -/
inductive NestedEvent
  | setIrq (irq : BitVec 8) (level : Bool)
  | acknowledge
  | writeMask (value : BitVec 8)
  | endOfInterrupt (level : BitVec 3)

/-- A controller with the lines acknowledged and not yet ended, the most recent first. -/
structure PicHistory where
  pic : Pic8259
  unended : List (BitVec 8) := []

namespace PicHistory

def step (h : PicHistory) : NestedEvent → PicHistory
  | .setIrq irq level => { h with pic := h.pic.setIrq irq level }
  | .acknowledge => { pic := h.pic.inta.2, unended := h.pic.inta.1.toList ++ h.unended }
  | .writeMask value => { h with pic := h.pic.writeData value }
  | .endOfInterrupt level =>
    { pic := h.pic.writeCommand (Pic8259.eoiCommand level), unended := h.unended.tail }

/-- The lines in service are those on the stack, and the ranks grow from its top down. -/
structure Nested (h : PicHistory) : Prop where
  mode : h.pic.FullyNested
  inRange : ∀ irq ∈ h.unended, irq ∈ irqRange
  inService : ∀ irq ∈ irqRange, hasIrq h.pic.isr irq = true ↔ irq ∈ h.unended
  ordered : h.unended.Pairwise fun a b => h.pic.priorityRank a < h.pic.priorityRank b

/-- What the nesting depends on is the same in two controllers. -/
structure SameService (p q : Pic8259) : Prop where
  isr : q.isr = p.isr
  lowestPriority : q.lowestPriority = p.lowestPriority
  initState : q.initState = p.initState
  autoEoi : q.autoEoi = p.autoEoi
  specialMaskMode : q.specialMaskMode = p.specialMaskMode

theorem sameService_setIrq (p : Pic8259) (irq : BitVec 8) (level : Bool) :
    SameService p (p.setIrq irq level) := by
  rw [Pic8259.setIrq]
  split
  · exact ⟨rfl, rfl, rfl, rfl, rfl⟩
  · dsimp only
    split
    · exact ⟨rfl, rfl, rfl, rfl, rfl⟩
    · split <;> exact ⟨rfl, rfl, rfl, rfl, rfl⟩

theorem sameService_writeData {p : Pic8259} (h : p.initState = .ready) (value : BitVec 8) :
    SameService p (p.writeData value) := by
  have hmask : p.writeData value = { p with imr := value } := by rw [Pic8259.writeData, h]
  rw [hmask]
  exact ⟨rfl, rfl, rfl, rfl, rfl⟩

section Nested

variable {p q : Pic8259} {unended : List (BitVec 8)}

theorem Nested.same (h : Nested ⟨p, unended⟩) (hq : SameService p q) : Nested ⟨q, unended⟩ where
  mode := ⟨hq.initState.trans h.mode.ready, hq.autoEoi.trans h.mode.endsByCommand,
    hq.specialMaskMode.trans h.mode.noSpecialMask⟩
  inRange := h.inRange
  inService irq hirq := by
    show hasIrq q.isr irq = true ↔ _
    rw [hq.isr]
    exact h.inService irq hirq
  ordered := by
    have hrank : q.priorityRank = p.priorityRank := by
      funext irq
      rw [Pic8259.priorityRank, Pic8259.priorityRank, hq.lowestPriority]
    show unended.Pairwise fun a b => q.priorityRank a < q.priorityRank b
    rw [hrank]
    exact h.ordered

theorem blockingIsr_eq (h : p.FullyNested) : p.blockingIsr = p.isr := by
  rw [Pic8259.blockingIsr, h.noSpecialMask, if_neg (by decide)]

/-- The selected line has strictly higher priority than every line in service. -/
theorem rank_lt_of_highestPending (h : p.FullyNested) {irq : BitVec 8}
    (hirq : p.highestPending = some irq) :
    ∀ other ∈ irqRange, hasIrq p.isr other = true → p.priorityRank irq < p.priorityRank other := by
  obtain ⟨-, hdeliverable, -⟩ := Pic8259.highestPending_spec hirq
  obtain ⟨-, -, -, hfree⟩ := Pic8259.deliverable_iff.mp hdeliverable
  rwa [blockingIsr_eq h] at hfree

theorem Nested.acknowledge (h : Nested ⟨p, unended⟩) {irq : BitVec 8}
    (hirq : p.highestPending = some irq) : Nested ⟨(p.ackIrq irq).2, irq :: unended⟩ := by
  have hmem := (Pic8259.highestPending_spec hirq).1
  have hauto : p.autoEoi = false := h.mode.endsByCommand
  have hack : (p.ackIrq irq).2 =
      { p with irr := dropIrq p.irr irq, isr := raiseIrq p.isr irq } := by
    simp [Pic8259.ackIrq, hauto]
  rw [hack]
  refine ⟨⟨h.mode.ready, h.mode.endsByCommand, h.mode.noSpecialMask⟩, ?_, ?_, ?_⟩
  · rintro other (_ | ⟨_, hother⟩)
    · exact hmem
    · exact h.inRange other hother
  · intro other hother
    have hold := h.inService other hother
    simp only [hasIrq_raiseIrq, Bool.or_eq_true, decide_eq_true_eq, List.mem_cons] at hold ⊢
    rw [hold, or_comm]
    refine or_congr_left ⟨fun hindex => eq_of_irqIndex_eq hother hmem hindex, ?_⟩
    rintro rfl
    rfl
  · refine List.pairwise_cons.mpr ⟨fun other hother => ?_, h.ordered⟩
    have hrange := h.inRange other hother
    exact rank_lt_of_highestPending h.mode hirq other hrange ((h.inService other hrange).mpr hother)

/-- A non-specific EOI takes the top of the stack. -/
theorem Nested.clearHighestIsr (h : Nested ⟨p, unended⟩) :
    p.clearHighestIsr = match unended with
      | [] => (none, p)
      | top :: _ => (some top, { p with isr := dropIrq p.isr top }) := by
  have hcandidates (irq : BitVec 8) :
      irq ∈ irqRange.filter (hasIrq p.blockingIsr) ↔ irq ∈ unended := by
    rw [List.mem_filter, blockingIsr_eq h.mode]
    constructor
    · rintro ⟨hrange, hservice⟩
      exact (h.inService irq hrange).mp hservice
    · intro hirq
      exact ⟨h.inRange irq hirq, (h.inService irq (h.inRange irq hirq)).mpr hirq⟩
  rw [Pic8259.clearHighestIsr]
  cases hmin : (irqRange.filter (hasIrq p.blockingIsr)).argmin p.priorityRank with
  | none =>
    have hempty := List.argmin_eq_none.mp hmin
    cases unended with
    | nil => rfl
    | cons top rest =>
      have htop := (hcandidates top).mpr List.mem_cons_self
      rw [hempty] at htop
      cases htop
  | some irq =>
    have hirq := (hcandidates irq).mp (List.argmin_mem hmin)
    cases unended with
    | nil => cases hirq
    | cons top rest =>
      have hle : p.priorityRank irq ≤ p.priorityRank top :=
        List.le_of_mem_argmin ((hcandidates top).mpr List.mem_cons_self) hmin
      have htop : irq = top := by
        rcases List.mem_cons.mp hirq with heq | hrest
        · exact heq
        · have hlt := (List.pairwise_cons.mp h.ordered).1 irq hrest
          exact absurd hle (Nat.not_le.mpr hlt)
      rw [htop]

/-- The line that an EOI ends, and no other, leaves service. -/
theorem Nested.hasIrq_clearHighestIsr (h : Nested ⟨p, unended⟩) {irq : BitVec 8}
    (hirq : irq ∈ irqRange) :
    hasIrq p.clearHighestIsr.2.isr irq = true ↔
      hasIrq p.isr irq = true ∧ unended.head? ≠ some irq := by
  rw [h.clearHighestIsr]
  cases unended with
  | nil => simp
  | cons top rest =>
    have htop := h.inRange top List.mem_cons_self
    simp only [hasIrq_dropIrq, List.head?_cons, ne_eq, Option.some.injEq, Bool.and_eq_true,
      Bool.not_eq_true', decide_eq_false_iff_not]
    refine and_congr_right fun _ => not_congr ⟨fun hindex => ?_, ?_⟩
    · exact (eq_of_irqIndex_eq hirq htop hindex).symm
    · rintro rfl
      rfl

theorem Nested.endOfInterrupt (h : Nested ⟨p, unended⟩) :
    Nested ⟨p.clearHighestIsr.2, unended.tail⟩ := by
  have hservice (irq : BitVec 8) (hirq : irq ∈ irqRange) := h.hasIrq_clearHighestIsr hirq
  rw [h.clearHighestIsr] at hservice ⊢
  cases unended with
  | nil => exact h
  | cons top rest =>
    obtain ⟨hbelow, hrest⟩ := List.pairwise_cons.mp h.ordered
    refine ⟨⟨h.mode.ready, h.mode.endsByCommand, h.mode.noSpecialMask⟩,
      fun irq hirq => h.inRange irq (List.mem_cons_of_mem top hirq), fun irq hirq => ?_, hrest⟩
    have hold : hasIrq p.isr irq = true ↔ irq = top ∨ irq ∈ rest :=
      (h.inService irq hirq).trans List.mem_cons
    refine (hservice irq hirq).trans ?_
    rw [hold, List.head?_cons, ne_eq, Option.some.injEq]
    constructor
    · rintro ⟨hmem, hne⟩
      exact hmem.resolve_left fun heq => hne heq.symm
    · intro hmem
      refine ⟨.inr hmem, fun heq => ?_⟩
      have hself := hbelow irq hmem
      rw [heq] at hself
      exact absurd hself (Nat.lt_irrefl _)

end Nested

theorem Nested.step {h : PicHistory} (hn : h.Nested) (event : NestedEvent) :
    (h.step event).Nested := by
  obtain ⟨p, unended⟩ := h
  cases event with
  | setIrq irq level => exact hn.same (sameService_setIrq p irq level)
  | writeMask value => exact hn.same (sameService_writeData hn.mode.ready value)
  | endOfInterrupt level =>
    rw [PicHistory.step, Pic8259.writeCommand_eoi]
    exact hn.endOfInterrupt
  | acknowledge =>
    rw [PicHistory.step, Pic8259.inta]
    cases hirq : p.highestPending with
    | none => exact hn
    | some irq => exact hn.acknowledge hirq

/-- Along every run from an idle controller in fully nested mode, an acknowledged line has higher
priority than every line in service, and an EOI ends the line acknowledged last. -/
theorem nested_last_in_first_out {p : Pic8259} (hmode : p.FullyNested) (hidle : p.isr = 0#8)
    {h : PicHistory} (hreach : Reachable (· = ⟨p, []⟩) (fun h e h' => h' = h.step e) h) :
    (∀ irq, h.pic.inta.1 = some irq → ∀ other ∈ irqRange, hasIrq h.pic.isr other = true →
        h.pic.priorityRank irq < h.pic.priorityRank other) ∧
      h.pic.clearHighestIsr.1 = h.unended.head? ∧
      ∀ level, ∀ irq ∈ irqRange,
        (hasIrq (h.pic.writeCommand (Pic8259.eoiCommand level)).isr irq = true ↔
          hasIrq h.pic.isr irq = true ∧ h.unended.head? ≠ some irq) := by
  have hnested : h.Nested := by
    refine hreach.invariant ?_ ?_
    · rintro _ rfl
      refine ⟨hmode, by simp, fun irq _ => ?_, .nil⟩
      simp [hidle, hasIrq]
    · rintro h e _ hn rfl
      exact hn.step e
  obtain ⟨p, unended⟩ := h
  refine ⟨fun irq hirq => ?_, ?_, fun level irq hirq => ?_⟩
  · refine rank_lt_of_highestPending hnested.mode ?_
    rw [Pic8259.inta] at hirq
    cases hpending : p.highestPending with
    | none => simp [hpending] at hirq
    | some other => simpa [hpending] using hirq
  · show p.clearHighestIsr.1 = unended.head?
    rw [hnested.clearHighestIsr]
    cases unended <;> rfl
  · rw [Pic8259.writeCommand_eoi]
    exact hnested.hasIrq_clearHighestIsr hirq

/-- Line 3 is acknowledged, and then line 1. -/
def lineOneInLineThree : PicHistory :=
  [.writeMask 0#8, .setIrq 3#8 true, .acknowledge, .setIrq 1#8 true, .acknowledge].foldl step
    ⟨Pic8259.new 0x20#8, []⟩

theorem nested_last_in_first_out_two :
    lineOneInLineThree.unended = [1#8, 3#8] ∧
      lineOneInLineThree.pic.clearHighestIsr.1 = lineOneInLineThree.unended.head? := by
  refine ⟨by decide +kernel, (nested_last_in_first_out (p := Pic8259.new 0x20#8)
    ⟨rfl, rfl, rfl⟩ rfl ?_).2.1⟩
  change Reachable _ _ ((((((PicHistory.mk (Pic8259.new 0x20#8) []).step (.writeMask 0#8)).step
    (.setIrq 3#8 true)).step .acknowledge).step (.setIrq 1#8 true)).step .acknowledge)
  exact .step (.step (.step (.step (.step (.init rfl) rfl) rfl) rfl) rfl) rfl

end PicHistory

end Rax.Devices

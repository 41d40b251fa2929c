import Rax.Devices.IoApic
import Rax.Lib.Tally

/-!
# Edge-triggered inputs of the I/O APIC

An edge-triggered entry is to deliver once for each rise of its line while it is unmasked, and
once when it is unmasked while its line is high. The device keeps the level of a line, but it
does not look at it when the line is asserted again, and a write of an entry does not look at
the mask that the entry had. It never misses a delivery; it makes one too many for each line
that is asserted twice and for each unmasked entry that is rewritten under a high line.
-/

namespace Rax.Devices.IoApic

/-- What can happen to the device: its lines, its registers, and the pending deliveries being
taken over for routing. -/
inductive Event
  | setIrq (gsi : Nat) (asserted : Bool)
  | write (now : Nat) (addr : Word) (data : List Byte)
  | takePending

/-- The device and the deliveries that have been taken from it. -/
structure Served where
  apic : IoApic := {}
  taken : List PendingIrq := []

namespace Served

def step (w : Served) : Event → Served
  | .setIrq gsi asserted => { w with apic := w.apic.setIrq gsi asserted }
  | .write now addr data => { w with apic := ioApicDevice.write w.apic now addr data }
  | .takePending => { apic := { w.apic with pending := [] }, taken := w.taken ++ w.apic.pending }

def run (w : Served) (events : List Event) : Served := events.foldl step w

end Served

/-- An edge-triggered delivery from an entry. -/
def isEdgeOf (entry : Fin 24) (p : PendingIrq) : Bool := p.gsi == entry.val && !p.levelTriggered

/-- The edge-triggered deliveries that an entry has queued so far. -/
def Served.queued (entry : Fin 24) (w : Served) : Nat :=
  (w.taken ++ w.apic.pending).countP (isEdgeOf entry)

/-- What decides whether an edge counts: the level of the line, the mask and the trigger mode. -/
@[ext]
structure Pin where
  high : Bool
  masked : Bool
  edge : Bool

def pin (s : IoApic) (entry : Fin 24) : Pin where
  high := s.lineAsserted entry
  masked := masked (s.redirectionTable entry)
  edge := !(s.redirectionTable entry).getLsbD 15

namespace Pin

/-- Whether an evaluation queues an edge-triggered delivery. -/
def delivers (p : Pin) : Bool := p.edge && !p.masked && p.high

/-- The deliveries that a change calls for: one if the line goes high while the entry is
unmasked, and one if the entry is unmasked while its line is high. -/
def due (before after : Pin) : Nat :=
  if after.edge && !after.masked then
    if !before.high && after.high then 1
    else if before.masked && after.high then 1
    else 0
  else 0

/-- A line that was high under an unmasked entry before is evaluated again. -/
def repeated (evaluated : Bool) (before after : Pin) : Nat :=
  if evaluated && before.high && !before.masked && after.delivers then 1 else 0

theorem due_self (p : Pin) : due p p = 0 := by
  obtain ⟨high, masked, edge⟩ := p
  cases high <;> cases masked <;> cases edge <;> rfl

theorem due_release (p : Pin) : due p { p with high := false } = 0 := by
  obtain ⟨high, masked, edge⟩ := p
  cases high <;> cases masked <;> cases edge <;> rfl

/-- Asserting a line: the evaluation is due unless the line was high already. -/
theorem due_add_repeated_assert (p : Pin) :
    due p { p with high := true } + repeated true p { p with high := true } =
      if p.edge = true ∧ p.masked = false then 1 else 0 := by
  obtain ⟨high, masked, edge⟩ := p
  cases high <;> cases masked <;> cases edge <;> rfl

/-- Rewriting an entry: the evaluation is due only if the entry was masked. -/
theorem due_add_repeated_rewrite {before after : Pin} (h : after.high = before.high) :
    due before after + repeated true before after =
      if before.high = true ∧ after.edge = true ∧ after.masked = false then 1 else 0 := by
  obtain ⟨high, masked, edge⟩ := before
  obtain ⟨high', masked', edge'⟩ := after
  obtain rfl : high' = high := h
  cases high' <;> cases masked <;> cases masked' <;> cases edge' <;> rfl

theorem repeated_false (before after : Pin) : repeated false before after = 0 := rfl

end Pin

/-- Whether an event evaluates an entry: its line is asserted, or the low half of it is written
while the line is high. -/
def evaluates (s : IoApic) (entry : Fin 24) : Event → Bool
  | .setIrq gsi asserted => asserted && gsi == entry.val
  | .write _ addr _ =>
    registerOffset ioApicBase addr == 0x10 &&
      match s.selected with
      | some (.low e) => e == entry
      | _ => false
  | .takePending => false

/-- The deliveries that an event calls for. -/
def Served.due (entry : Fin 24) (w : Served) (e : Event) : Nat :=
  (w.apic.pin entry).due ((w.step e).apic.pin entry)

/-- The deliveries that an event makes without need. -/
def Served.extra (entry : Fin 24) (w : Served) (e : Event) : Nat :=
  (w.apic.pin entry).repeated (w.apic.evaluates entry e) ((w.step e).apic.pin entry)

section Steps

variable {s : IoApic} {entry : Fin 24}

theorem pin_evaluateEntry (k : Fin 24) : (s.evaluateEntry k).pin entry = s.pin entry := by
  unfold evaluateEntry
  dsimp only
  split <;> rfl

/-- An evaluation of another entry, or of one that is masked or level-triggered, queues no
edge-triggered delivery of an entry; any other queues one. -/
theorem countP_evaluateEntry (k : Fin 24) :
    (s.evaluateEntry k).pending.countP (isEdgeOf entry) =
      s.pending.countP (isEdgeOf entry) +
        if k = entry ∧ (s.pin entry).edge = true ∧ (s.pin entry).masked = false then 1 else 0 := by
  by_cases hk : k = entry
  · subst hk
    cases hmask : masked (s.redirectionTable k) with
    | true => simp [evaluateEntry, pin, hmask]
    | false =>
      cases hlevel : (s.redirectionTable k).getLsbD 15 <;>
        simp [evaluateEntry, pin, hmask, delivery, isEdgeOf, hlevel, -BitVec.getLsbD_eq_getElem]
  · have hgsi : isEdgeOf entry (delivery k (s.redirectionTable k)) = false := by
      have hne : k.val ≠ entry.val := fun h => hk (Fin.ext h)
      simp [isEdgeOf, delivery, hne]
    cases hmask : masked (s.redirectionTable k) with
    | true => simp [evaluateEntry, hmask, hk]
    | false => simp [evaluateEntry, hmask, hk, hgsi]

/-- A line at a level, before its entry is evaluated. -/
def withLine (s : IoApic) (k : Fin 24) (level : Bool) : IoApic :=
  { s with lineAsserted := Function.update s.lineAsserted k level }

theorem pin_withLine_self (level : Bool) :
    (s.withLine entry level).pin entry = { s.pin entry with high := level } := by
  simp [withLine, pin]

theorem pin_withLine_of_ne {k : Fin 24} (hk : k ≠ entry) (level : Bool) :
    (s.withLine k level).pin entry = s.pin entry := by
  simp [withLine, pin, Function.update_of_ne hk.symm]

theorem setIrq_eq (k : Fin 24) (level : Bool) :
    s.setIrq k.val level =
      if level then (s.withLine k level).evaluateEntry k else s.withLine k level := by
  simp [setIrq, withLine]

/-- What an event queues is what it calls for and what it repeats. -/
def Accounts (s s' : IoApic) (entry : Fin 24) (e : Event) : Prop :=
  s'.pending.countP (isEdgeOf entry) = s.pending.countP (isEdgeOf entry) +
    ((s.pin entry).due (s'.pin entry) +
      (s.pin entry).repeated (s.evaluates entry e) (s'.pin entry))

theorem accounts_of_unchanged {s' : IoApic} {e : Event} (hpin : s'.pin entry = s.pin entry)
    (hcount : s'.pending.countP (isEdgeOf entry) = s.pending.countP (isEdgeOf entry))
    (hevaluates : s.evaluates entry e = false) : Accounts s s' entry e := by
  rw [Accounts, hpin, hcount, hevaluates, Pin.due_self, Pin.repeated_false]
  rfl

/-- What asserting or releasing a line queues. -/
theorem setIrq_accounts (gsi : Nat) (asserted : Bool) :
    Accounts s (s.setIrq gsi asserted) entry (.setIrq gsi asserted) := by
  by_cases hgsi : gsi < 24
  · obtain ⟨k, rfl⟩ : ∃ k : Fin 24, gsi = k.val := ⟨⟨gsi, hgsi⟩, rfl⟩
    by_cases hk : k = entry
    · subst hk
      cases asserted with
      | false =>
        have hpin : (s.setIrq k.val false).pin k = { s.pin k with high := false } := by
          rw [setIrq_eq]
          exact pin_withLine_self false
        have hcount : (s.setIrq k.val false).pending = s.pending := by
          rw [setIrq_eq]
          rfl
        rw [Accounts, hpin, hcount, Pin.due_release]
        rfl
      | true =>
        have hevaluates : s.evaluates k (.setIrq k.val true) = true := by simp [evaluates]
        have hpin : (s.setIrq k.val true).pin k = { s.pin k with high := true } := by
          rw [setIrq_eq, if_pos rfl, pin_evaluateEntry, pin_withLine_self]
        rw [Accounts, hpin, hevaluates, Pin.due_add_repeated_assert, setIrq_eq, if_pos rfl,
          countP_evaluateEntry, pin_withLine_self]
        simp [withLine]
    · have hevaluates : s.evaluates entry (.setIrq k.val asserted) = false := by
        have hne : k.val ≠ entry.val := fun h => hk (Fin.ext h)
        simp [evaluates, hne]
      refine accounts_of_unchanged ?_ ?_ hevaluates
      · rw [setIrq_eq]
        split
        · rw [pin_evaluateEntry, pin_withLine_of_ne hk]
        · exact pin_withLine_of_ne hk _
      · rw [setIrq_eq]
        split
        · rw [countP_evaluateEntry, if_neg fun h => hk h.1]
          rfl
        · rfl
  · have hevaluates : s.evaluates entry (.setIrq gsi asserted) = false := by
      have hne : gsi ≠ entry.val := fun h => hgsi (h ▸ entry.isLt)
      simp [evaluates, hne]
    have hset : s.setIrq gsi asserted = s := by simp [setIrq, hgsi]
    exact accounts_of_unchanged (by rw [hset]) (by rw [hset]) hevaluates

theorem pin_setEntry_of_ne {k : Fin 24} (hk : k ≠ entry) (rte : Word) :
    (s.setEntry k rte).pin entry = s.pin entry := by
  simp [setEntry, pin, Function.update_of_ne hk.symm]

/-- The destination half holds neither the mask nor the trigger mode. -/
theorem pin_setEntry_withHigh (value : Reg) :
    (s.setEntry entry ((s.redirectionTable entry).withHigh value)).pin entry = s.pin entry := by
  have hlow := Word.lowHalf_withHigh (s.redirectionTable entry) value
  have hbit {i : Nat} (hi : i < 32) : ((s.redirectionTable entry).withHigh value).getLsbD i =
      (s.redirectionTable entry).getLsbD i := by
    have h := congrArg (·.getLsbD i) hlow
    simpa only [Word.lowHalf, BitVec.getLsbD_setWidth, hi, decide_true, Bool.true_and] using h
  have hmask : masked ((s.redirectionTable entry).withHigh value) =
      masked (s.redirectionTable entry) := hbit (by decide)
  simp only [setEntry, pin, Function.update_self, hmask, hbit (show 15 < 32 by decide)]

/-- What writing an indexed register queues. -/
theorem writeReg_accounts {e : Event} (value : Reg) (reg : Option IoApicReg)
    (he : s.evaluates entry e = match reg with
      | some (.low k) => k == entry
      | _ => false) :
    Accounts s (s.writeReg value reg) entry e := by
  match reg with
  | some (.low k) =>
    let written := s.setEntry k
      ((s.redirectionTable k).withLow (mergeLow (s.redirectionTable k).lowHalf value))
    have hwrite : s.writeReg value (some (.low k)) =
        if s.lineAsserted k then written.evaluateEntry k else written := rfl
    have hpin : (s.writeReg value (some (.low k))).pin entry = written.pin entry := by
      rw [hwrite]
      split
      · exact pin_evaluateEntry k
      · rfl
    replace he : s.evaluates entry e = (k == entry) := he
    by_cases hk : k = entry
    · subst hk
      have hrewrite : (s.pin k).due (written.pin k) + (s.pin k).repeated true (written.pin k) = _ :=
        Pin.due_add_repeated_rewrite rfl
      rw [Accounts, hpin, he, beq_self_eq_true, hrewrite, hwrite]
      cases hline : s.lineAsserted k with
      | false =>
        have hlow : (s.pin k).high = false := hline
        simp [hlow, written, setEntry]
      | true =>
        have hhigh : (s.pin k).high = true := hline
        rw [if_pos rfl, countP_evaluateEntry]
        simp [hhigh, written, setEntry]
    · refine accounts_of_unchanged (hpin.trans (pin_setEntry_of_ne hk _)) ?_ ?_
      · rw [hwrite]
        split
        · rw [countP_evaluateEntry, if_neg fun h => hk h.1]
          rfl
        · rfl
      · rw [he]
        exact beq_eq_false_iff_ne.mpr hk
  | some (.high k) =>
    refine accounts_of_unchanged ?_ rfl he
    by_cases hk : k = entry
    · subst hk
      exact pin_setEntry_withHigh value
    · exact pin_setEntry_of_ne hk _
  | some .id | some .ver | some .arb | none => exact accounts_of_unchanged rfl rfl he

theorem write_accounts (now : Nat) (addr : Word) (data : List Byte) :
    Accounts s (ioApicDevice.write s now addr data) entry (.write now addr data) := by
  simp only [ioApicDevice]
  by_cases hsel : registerOffset ioApicBase addr = 0x00
  · have hevaluates : s.evaluates entry (.write now addr data) = false := by
      simp [evaluates, hsel]
    rw [if_pos hsel]
    split
    · split
      · exact accounts_of_unchanged rfl rfl hevaluates
      · exact accounts_of_unchanged rfl rfl hevaluates
    · exact accounts_of_unchanged rfl rfl hevaluates
  · rw [if_neg hsel]
    by_cases hwin : registerOffset ioApicBase addr = 0x10
    · rw [if_pos hwin]
      refine writeReg_accounts _ _ ?_
      simp only [evaluates, hwin, beq_self_eq_true, Bool.true_and]
    · rw [if_neg hwin]
      exact accounts_of_unchanged rfl rfl (by simp [evaluates, hwin])

end Steps

/-- Every event queues what it calls for and what it repeats. -/
theorem Served.queued_step (entry : Fin 24) (w : Served) (e : Event) :
    (w.step e).queued entry = w.queued entry + (w.due entry e + w.extra entry e) := by
  have hqueued {s' : IoApic} (h : Accounts w.apic s' entry e) :
      Served.queued entry { w with apic := s' } = w.queued entry +
        ((w.apic.pin entry).due (s'.pin entry) +
          (w.apic.pin entry).repeated (w.apic.evaluates entry e) (s'.pin entry)) := by
    simp only [queued, List.countP_append]
    rw [h]
    omega
  cases e with
  | setIrq gsi asserted => exact hqueued (setIrq_accounts gsi asserted)
  | write now addr data => exact hqueued (write_accounts now addr data)
  | takePending =>
    have hdue : w.due entry .takePending = 0 := Pin.due_self _
    have hextra : w.extra entry .takePending = 0 := rfl
    rw [hdue, hextra]
    simp [queued, step]

/-- The edge-triggered deliveries of an entry over a run are those that the changes of its line
and mask call for. -/
def Served.EdgesCounted (entry : Fin 24) (w : Served) (events : List Event) : Prop :=
  (w.run events).queued entry = w.queued entry + tally step (due entry) w events

/-- An event that makes a delivery without need: it asserts a line that is high, or writes the
low half of an entry that was unmasked under a high line, and leaves the entry unmasked and
edge-triggered. -/
def Served.Repeats (entry : Fin 24) (w : Served) (e : Event) : Prop :=
  w.apic.evaluates entry e = true ∧ (w.apic.pin entry).high = true ∧
    (w.apic.pin entry).masked = false ∧ ((w.step e).apic.pin entry).delivers = true

/-- The deliveries of an edge-triggered entry are right exactly in runs that never assert its
line or rewrite it while it is unmasked under a high line. -/
theorem Served.edgesCounted_iff (entry : Fin 24) (w : Served) (events : List Event) :
    w.EdgesCounted entry events ↔ AtEach step (fun w e => ¬ w.Repeats entry e) w events := by
  have hextra (w : Served) (e : Event) : w.extra entry e = 0 ↔ ¬ w.Repeats entry e := by
    simp [extra, Pin.repeated, Repeats, and_assoc]
  have hiff := counter_eq_due_iff (queued_step entry) w events
  simp only [hextra] at hiff
  exact hiff

/-- A keyboard line, unmasked with vector 0x31 and asserted twice. -/
def assertedTwice : List Event :=
  [.write 0 0xFEC00000 [0x12], .write 0 0xFEC00010 [0x31, 0, 0, 0], .setIrq 1 true,
    .setIrq 1 true]

/-- The line rises once, and two deliveries are queued. -/
theorem assertedTwice_delivers_twice : ¬ Served.EdgesCounted (Fin.ofNat 24 1) {} assertedTwice := by
  unfold Served.EdgesCounted
  decide

end Rax.Devices.IoApic

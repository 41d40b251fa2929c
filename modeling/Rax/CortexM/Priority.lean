import Rax.CortexM.Nesting
import Rax.Lib.Run

/-!
# Which exception the Cortex-M takes

`execution_priority` and `get_pending_exception` of the interrupt controller and
`check_pending_exceptions` of the processor, over the entries and returns of `Exception`. The masks
are held twice: the processor has its own, and the controller decides by others.

A history adds the exceptions that have been entered and not left. The controller knows the last
one only, and none after a return.
-/

namespace Rax.CortexM

/-- Enables, priorities and masks of the interrupt controller. -/
structure Levels where
  enabled : Fin 16 → BitVec 32
  priority : Nat → Byte
  /-- Of the exceptions 4 to 15. -/
  systemPriority : Nat → Byte
  primask : Bool
  faultmask : Bool
  basepri : Byte

/-- A processor with what decides about its next exception. -/
structure Machine (μ : Type) where
  cpu : Cpu μ
  levels : Levels
  /-- The processor's own PRIMASK and BASEPRI; its FAULTMASK is in `cpu`. -/
  primask : Bool
  basepri : Byte
  nmiPending : Bool
  pendsvPending : Bool
  systickPending : Bool
  /-- The timer has expired and was not seen by the system control block. -/
  tickPending : Bool

namespace Machine

variable {μ : Type} (m : Machine μ)

def isPending (irq : Nat) : Bool :=
  if h : irq < m.cpu.nvic.numInterrupts then
    (m.cpu.nvic.pending (m.cpu.nvic.wordOf h)).getLsbD (irq % 32)
  else false

def isEnabled (irq : Nat) : Bool :=
  if h : irq < m.cpu.nvic.numInterrupts then
    (m.levels.enabled (m.cpu.nvic.wordOf h)).getLsbD (irq % 32)
  else false

def getSystemPriority (exception : Nat) : Int :=
  if exception = 1 then -3
  else if exception = 2 then -2
  else if exception = 3 then -1
  else if 4 ≤ exception ∧ exception ≤ 15 then (m.levels.systemPriority (exception - 4)).toNat
  else 0

def getExceptionPriority (exception : Nat) : Int :=
  if exception = 1 then -3
  else if exception = 2 then -2
  else if exception = 3 then -1
  else if 4 ≤ exception ∧ exception ≤ 15 then (m.levels.systemPriority (exception - 4)).toNat
  else if 16 ≤ exception ∧ exception - 16 < m.cpu.nvic.numInterrupts then
    (m.levels.priority (exception - 16)).toNat
  else 256

def executionPriority : Int :=
  if m.levels.faultmask then -1
  else if m.levels.primask then 0
  else if m.levels.basepri ≠ 0 then m.levels.basepri.toNat
  else if m.cpu.nvic.currentException = 0 then 256
  else m.getExceptionPriority m.cpu.nvic.currentException.toNat

/-- The better of the best candidate so far and an interrupt, if that one can preempt. -/
def offer (best : Option (Int × Nat)) (irq : Nat) : Option (Int × Nat) :=
  if m.isPending irq && m.isEnabled irq then
    let priority := m.getExceptionPriority (irq + 16)
    if priority < m.executionPriority then
      match best with
      | none => some (priority, irq + 16)
      | some (bestPri, bestExc) =>
        if priority < bestPri ∨ (priority = bestPri ∧ irq + 16 < bestExc) then
          some (priority, irq + 16)
        else best
    else best
  else best

def getPendingException : Option Nat :=
  ((List.range m.cpu.nvic.numInterrupts).foldl m.offer none).map Prod.snd

/-- An expired timer is noted in the system control block. -/
def noteTick : Machine μ :=
  if m.tickPending then { m with systickPending := true } else m

end Machine

section Commands

variable {μ ε : Type} [ArmMemory μ ε]

/-- Let the processor of a machine take an exception. -/
def take (exception : Nat) : Command ε (Machine μ) (Option Nat) := fun m =>
  match takeException (BitVec.ofNat 16 exception) m.cpu with
  | .ok _ c => .ok (some exception) { m with cpu := c }
  | .error e c => .error e { m with cpu := c }

/-- The check after the timer has been noted in `m`. -/
def takePending (m : Machine μ) : Command ε (Machine μ) (Option Nat) :=
  if m.nmiPending then do
    modify fun m => { m with nmiPending := false }
    take 2
  else if m.pendsvPending ∧ m.getSystemPriority 14 < m.executionPriority then do
    modify fun m => { m with pendsvPending := false }
    take 14
  else if m.systickPending ∧ m.getSystemPriority 15 < m.executionPriority then do
    modify fun m => { m with systickPending := false, tickPending := false }
    take 15
  else
    match m.getPendingException with
    | some exception => take exception
    | none => pure none

/-- The exception that was taken, if any. -/
def checkPendingExceptions : Command ε (Machine μ) (Option Nat) := do
  modify Machine.noteTick
  takePending (← get)

end Commands

/-! ## Which exceptions may be taken -/

/-- Order by priority, then by number. -/
def Precedes (a b : Int × Nat) : Prop := a.1 < b.1 ∨ a.1 = b.1 ∧ a.2 ≤ b.2

theorem Precedes.trans {a b c : Int × Nat} (h : Precedes a b) (h' : Precedes b c) :
    Precedes a c := by
  simp only [Precedes] at h h' ⊢
  omega

/-- The level that masks set: exceptions that are not more urgent wait. -/
def maskLevel (faultmask primask : Bool) (basepri : Byte) : Int :=
  if faultmask then -1 else if primask then 0 else if basepri ≠ 0 then basepri.toNat else 256

namespace Machine

variable {μ : Type} (m : Machine μ)

def urgency (exception : Nat) : Int × Nat := (m.getExceptionPriority exception, exception)

/-- Pending and enabled, NMI apart. -/
def Waits (exception : Nat) : Prop :=
  exception = 14 ∧ m.pendsvPending = true ∨
  exception = 15 ∧ (m.systickPending = true ∨ m.tickPending = true) ∨
  ∃ irq, exception = irq + 16 ∧ m.isPending irq = true ∧ m.isEnabled irq = true

/-- The level of the processor's masks. -/
def cpuLevel : Int := maskLevel m.cpu.faultmask m.primask m.basepri

/-- The level of the controller's masks. -/
def nvicLevel : Int := maskLevel m.levels.faultmask m.levels.primask m.levels.basepri

/-- An exception that may be taken while others are active. -/
structure MayTake (active : List Nat) (exception : Nat) : Prop where
  preempts : ∀ a ∈ active, m.getExceptionPriority exception < m.getExceptionPriority a
  unmasked : m.getExceptionPriority exception < m.cpuLevel
  unmasked_nvic : m.getExceptionPriority exception < m.nvicLevel
  first : ∀ other, m.Waits other → Precedes (m.urgency exception) (m.urgency other)

end Machine

/-- A machine with the exceptions that were entered and not left, the last one first. -/
structure MachineHistory (μ : Type) where
  machine : Machine μ
  active : List Nat

inductive MachineEvent (μ : Type)
  | check
  | exceptionReturn (excReturn : BitVec 32)
  /-- Instructions and writes of registers, which are not entries or returns. -/
  | work (m : Machine μ)

namespace MachineHistory

variable {μ ε : Type} [ArmMemory μ ε]

/-- Of the exceptions other than NMI only those that may be are taken. -/
def TakesSoundly (h : MachineHistory μ) : Prop :=
  ∀ exception m', checkPendingExceptions h.machine = .ok (some exception) m' → exception ≠ 2 →
    h.machine.MayTake h.active exception

/-- An exception that was taken is active. -/
def afterCheck (h : MachineHistory μ) : EStateM.Result ε (Machine μ) (Option Nat) → MachineHistory μ
  | .ok (some exception) m => ⟨m, exception :: h.active⟩
  | .ok none m => ⟨m, h.active⟩
  | .error _ m => ⟨m, h.active⟩

/-- A return ends the last exception. -/
def afterReturn (h : MachineHistory μ) : EStateM.Result ε (Cpu μ) Unit → MachineHistory μ
  | .ok _ c => ⟨{ h.machine with cpu := c }, h.active.tail⟩
  | .error _ c => ⟨{ h.machine with cpu := c }, h.active⟩

def step (h : MachineHistory μ) : MachineEvent μ → MachineHistory μ
  | .check => h.afterCheck (checkPendingExceptions h.machine)
  | .exceptionReturn v => h.afterReturn (CortexM.exceptionReturn v h.machine.cpu)
  | .work m => ⟨m, h.active⟩

/-- A state in which the controller decides as it should. -/
structure Settled (h : MachineHistory μ) : Prop where
  masks : h.machine.nvicLevel ≤ h.machine.cpuLevel
  basepri : h.machine.levels.basepri = 0 ∨
    ∀ a ∈ h.active, h.machine.levels.basepri.toNat ≤ h.machine.getExceptionPriority a
  pendsv : h.machine.pendsvPending = true → ∀ other, h.machine.Waits other →
    Precedes (h.machine.urgency 14) (h.machine.urgency other)
  systick : h.machine.pendsvPending = false →
    h.machine.systickPending = true ∨ h.machine.tickPending = true →
    ∀ other, h.machine.Waits other → Precedes (h.machine.urgency 15) (h.machine.urgency other)

/-- Only entries and returns change the exception that the controller knows. -/
def Possible (h : MachineHistory μ) : MachineEvent μ → Prop
  | .work m => m.cpu.nvic.currentException = h.machine.cpu.nvic.currentException
  | _ => True

/-- No return while an exception below is active, and no new priority for an active one. -/
def Flat (h : MachineHistory μ) : MachineEvent μ → Prop
  | .check => h.Settled
  | .exceptionReturn _ => h.active.length ≤ 1
  | .work m => ∀ a ∈ h.active, m.getExceptionPriority a = h.machine.getExceptionPriority a

end MachineHistory

/-! ## The search among the interrupts -/

namespace Machine

variable {μ : Type} (m : Machine μ)

/-- An interrupt that the search considers. -/
def Preempting (irq : Nat) : Prop :=
  m.isPending irq = true ∧ m.isEnabled irq = true ∧
    m.getExceptionPriority (irq + 16) < m.executionPriority

theorem offer_of_not {irq : Nat} (best : Option (Int × Nat)) (h : ¬m.Preempting irq) :
    m.offer best irq = best := by
  unfold offer
  split
  · rename_i hwaits
    rw [Bool.and_eq_true] at hwaits
    exact if_neg fun hlt => h ⟨hwaits.1, hwaits.2, hlt⟩
  · rfl

/-- Whatever is kept goes before the interrupt and before the best so far. -/
theorem offer_of_preempting {irq : Nat} (best : Option (Int × Nat)) (h : m.Preempting irq) :
    ∃ c, m.offer best irq = some c ∧ (c = m.urgency (irq + 16) ∨ best = some c) ∧
      Precedes c (m.urgency (irq + 16)) ∧ ∀ b, best = some b → Precedes c b := by
  obtain ⟨hpending, henabled, hlt⟩ := h
  have hself : Precedes (m.urgency (irq + 16)) (m.urgency (irq + 16)) := .inr ⟨rfl, Nat.le_refl _⟩
  rw [offer, hpending, henabled, Bool.and_self, if_pos rfl, if_pos hlt]
  cases best with
  | none => exact ⟨_, rfl, .inl rfl, hself, nofun⟩
  | some b =>
    obtain ⟨p, e⟩ := b
    dsimp only
    split
    · rename_i hbetter
      refine ⟨_, rfl, .inl rfl, hself, ?_⟩
      rintro _ ⟨rfl⟩
      exact hbetter.imp_right fun ⟨hp, he⟩ => ⟨hp, he.le⟩
    · rename_i hworse
      refine ⟨_, rfl, .inr rfl, ?_, ?_⟩
      · simp only [Precedes, urgency]
        omega
      · rintro _ ⟨rfl⟩
        exact .inr ⟨rfl, Nat.le_refl _⟩

/-- The search over a list of interrupts, with a best candidate from before. -/
theorem foldl_offer {irqs : List Nat} {best : Option (Int × Nat)} {c : Int × Nat}
    (h : irqs.foldl m.offer best = some c) :
    (best = some c ∨ ∃ irq ∈ irqs, m.Preempting irq ∧ c = m.urgency (irq + 16)) ∧
      (∀ b, best = some b → Precedes c b) ∧
      ∀ irq ∈ irqs, m.Preempting irq → Precedes c (m.urgency (irq + 16)) := by
  induction irqs generalizing best with
  | nil =>
    cases h
    refine ⟨.inl rfl, ?_, nofun⟩
    rintro _ ⟨rfl⟩
    exact .inr ⟨rfl, Nat.le_refl _⟩
  | cons irq irqs ih =>
    obtain ⟨hfound, hbest, hrest⟩ := ih h
    by_cases hp : m.Preempting irq
    · obtain ⟨d, hd, hsource, hirq, hbefore⟩ := m.offer_of_preempting best hp
      have hcd := hbest d hd
      refine ⟨?_, fun b hb => hcd.trans (hbefore b hb), ?_⟩
      · rcases hfound with hkept | ⟨i, hi, hfound⟩
        · rw [hd] at hkept
          cases hkept
          rcases hsource with hsource | hsource
          · exact .inr ⟨irq, List.mem_cons_self, hp, hsource⟩
          · exact .inl hsource
        · exact .inr ⟨i, List.mem_cons_of_mem _ hi, hfound⟩
      · intro i hi hpi
        rcases List.mem_cons.mp hi with rfl | hi
        · exact hcd.trans hirq
        · exact hrest i hi hpi
    · rw [m.offer_of_not best hp] at hfound hbest
      refine ⟨hfound.imp_right fun ⟨i, hi, hfound⟩ => ⟨i, List.mem_cons_of_mem _ hi, hfound⟩,
        hbest, ?_⟩
      intro i hi hpi
      rcases List.mem_cons.mp hi with rfl | hi
      · exact absurd hpi hp
      · exact hrest i hi hpi

theorem lt_of_isPending {irq : Nat} (h : m.isPending irq = true) :
    irq < m.cpu.nvic.numInterrupts := by
  unfold isPending at h
  split at h
  · assumption
  · cases h

/-- The search finds the first of the interrupts that can preempt. -/
theorem getPendingException_some {exception : Nat} (h : m.getPendingException = some exception) :
    (∃ irq, exception = irq + 16 ∧ m.Preempting irq) ∧
      ∀ irq, m.Preempting irq → Precedes (m.urgency exception) (m.urgency (irq + 16)) := by
  obtain ⟨c, hc, rfl⟩ := Option.map_eq_some_iff.mp h
  obtain ⟨hfound, -, hfirst⟩ := m.foldl_offer hc
  rcases hfound with hnone | ⟨irq, -, hp, rfl⟩
  · cases hnone
  · refine ⟨⟨irq, rfl, hp⟩, fun i hi => hfirst i ?_ hi⟩
    exact List.mem_range.mpr (m.lt_of_isPending hi.1)

end Machine

/-! ## What entries and returns do to the controller -/

/-- What the controller knows of the exception in progress, and its number of interrupts. -/
def Cpu.progress {μ : Type} (c : Cpu μ) : BitVec 16 × Nat :=
  (c.nvic.currentException, c.nvic.numInterrupts)

theorem Nvic.enterException_progress (n : Nvic) (num : BitVec 16) :
    (n.enterException num).currentException = num ∧
      (n.enterException num).numInterrupts = n.numInterrupts := by
  unfold enterException setActive clearPending
  dsimp only
  split_ifs <;> exact ⟨rfl, rfl⟩

theorem Nvic.returnFromException_progress (n : Nvic) :
    n.returnFromException.currentException = 0 ∧
      n.returnFromException.numInterrupts = n.numInterrupts := by
  unfold returnFromException clearActive
  dsimp only
  split_ifs <;> exact ⟨rfl, rfl⟩

section Commands

variable {μ ε : Type} [ArmMemory μ ε]

open Command

theorem memWriteU32_keeps (addr value : BitVec 32) :
    Keeps Cpu.progress (memWriteU32 addr value : Command ε (Cpu μ) Unit) := by
  intro c
  unfold memWriteU32
  split <;> rfl

theorem memReadU32_keeps (addr : BitVec 32) :
    Keeps Cpu.progress (memReadU32 addr : Command ε (Cpu μ) (BitVec 32)) := by
  intro c
  unfold memReadU32
  split <;> rfl

theorem storeWords_keeps (addr : BitVec 32) (ws : List (BitVec 32)) :
    Keeps Cpu.progress (storeWords addr ws : Command ε (Cpu μ) Unit) := by
  induction ws generalizing addr with
  | nil => exact .pure ()
  | cons w ws ih => exact .bind (memWriteU32_keeps addr w) fun _ => ih (addr + 4)

theorem popWord_keeps (addr : BitVec 32) {put : Cpu μ → BitVec 32 → Cpu μ}
    (hput : ∀ c v, (put c v).progress = c.progress) :
    Keeps Cpu.progress (popWord addr put : Command ε (Cpu μ) Unit) :=
  .bind (memReadU32_keeps addr) fun v => .modify fun c => hput c v

theorem takeException_updates (num : BitVec 16) :
    Updates Cpu.progress (fun p => (num, p.2)) (takeException num : Command ε (Cpu μ) Unit) := by
  refine .bind .get fun c => .bind (storeWords_keeps _ _) fun _ => ?_
  refine .bind (.modify fun c' => ?_) fun _ => .bind (memReadU32_keeps _) fun handler => ?_
  · unfold Cpu.setCurrentSp
    split <;> rfl
  · refine .modify fun c => ?_
    obtain ⟨hcurrent, hnum⟩ := c.nvic.enterException_progress num
    exact Prod.ext hcurrent hnum

theorem exceptionReturn_updates (v : BitVec 32) :
    Updates Cpu.progress (fun p => (0, p.2)) (exceptionReturn v : Command ε (Cpu μ) Unit) := by
  refine .bind .get fun c => .bind (popWord_keeps _ fun _ _ => rfl) fun _ =>
    .bind (popWord_keeps _ fun _ _ => rfl) fun _ => .bind (popWord_keeps _ fun _ _ => rfl) fun _ =>
    .bind (popWord_keeps _ fun _ _ => rfl) fun _ => .bind (popWord_keeps _ fun _ _ => rfl) fun _ =>
    .bind (popWord_keeps _ fun _ _ => rfl) fun _ => .bind (popWord_keeps _ fun _ _ => rfl) fun _ =>
    .bind (popWord_keeps _ fun _ _ => rfl) fun _ => .modify fun c => ?_
  obtain ⟨hcurrent, hnum⟩ := c.nvic.returnFromException_progress
  exact Prod.ext hcurrent hnum

/-! ## What a check decides -/

/-- The exception that a check tries to take. -/
inductive Decides (m : Machine μ) : Nat → Prop
  | nmi : Decides m 2
  | pendsv : m.pendsvPending = true → m.getExceptionPriority 14 < m.executionPriority → Decides m 14
  | systick : m.systickPending = true ∨ m.tickPending = true →
      m.getExceptionPriority 15 < m.executionPriority →
      ¬(m.pendsvPending = true ∧ m.getExceptionPriority 14 < m.executionPriority) → Decides m 15
  | interrupt {exception : Nat} : m.getPendingException = some exception →
      ¬(m.pendsvPending = true ∧ m.getExceptionPriority 14 < m.executionPriority) →
      ¬((m.systickPending = true ∨ m.tickPending = true) ∧
        m.getExceptionPriority 15 < m.executionPriority) → Decides m exception

/-- A check takes no exception, or tries to take the one it decides for. -/
theorem checkPendingExceptions_cases (m : Machine μ) :
    ∃ m₁ : Machine μ, m₁.cpu = m.cpu ∧ m₁.levels = m.levels ∧
      ((checkPendingExceptions m : EStateM.Result ε _ _) = .ok none m₁ ∨
        ∃ exception, Decides m exception ∧ checkPendingExceptions m = take exception m₁) := by
  have hnote : ∃ b, m.noteTick = { m with systickPending := b } ∧
      (b = true ↔ m.systickPending = true ∨ m.tickPending = true) := by
    unfold Machine.noteTick
    split
    · exact ⟨true, rfl, by simp_all⟩
    · exact ⟨m.systickPending, rfl, by simp_all⟩
  obtain ⟨b, hb, htick⟩ := hnote
  have hcheck : (checkPendingExceptions m : EStateM.Result ε _ _) =
      takePending m.noteTick m.noteTick := rfl
  rw [hcheck, hb]
  unfold takePending
  split
  · exact ⟨{ m with nmiPending := false, systickPending := b }, rfl, rfl, .inr ⟨2, .nmi, rfl⟩⟩
  split
  · rename_i hpendsv
    exact ⟨{ m with pendsvPending := false, systickPending := b }, rfl, rfl,
      .inr ⟨14, .pendsv hpendsv.1 hpendsv.2, rfl⟩⟩
  split
  · rename_i hpendsv hsystick
    exact ⟨{ m with systickPending := false, tickPending := false }, rfl, rfl,
      .inr ⟨15, .systick (htick.mp hsystick.1) hsystick.2 hpendsv, rfl⟩⟩
  · rename_i hpendsv hsystick
    refine ⟨{ m with systickPending := b }, rfl, rfl, ?_⟩
    cases hfound : Machine.getPendingException { m with systickPending := b } with
    | none => exact .inl rfl
    | some exception =>
      refine .inr ⟨exception, .interrupt hfound hpendsv ?_, rfl⟩
      exact fun h => hsystick ⟨htick.mpr h.1, h.2⟩

/-- What a check leaves: the exception it has taken is in progress, or nothing has changed. -/
theorem checkPendingExceptions_progress (m : Machine μ) :
    (∃ exception m', (checkPendingExceptions m : EStateM.Result ε _ _) = .ok (some exception) m' ∧
      Decides m exception ∧ m'.levels = m.levels ∧
      m'.cpu.progress = (BitVec.ofNat 16 exception, m.cpu.nvic.numInterrupts)) ∨
    ∃ m', ((checkPendingExceptions m : EStateM.Result ε _ _) = .ok none m' ∨
      ∃ e, (checkPendingExceptions m : EStateM.Result ε _ _) = .error e m') ∧
      m'.levels = m.levels ∧ m'.cpu.progress = m.cpu.progress := by
  obtain ⟨m₁, hcpu, hlevels, hnone | ⟨exception, hdecides, htake⟩⟩ :=
    checkPendingExceptions_cases (ε := ε) m
  · exact .inr ⟨m₁, .inl hnone, hlevels, congrArg Cpu.progress hcpu⟩
  · rw [htake]
    unfold take
    rcases takeException_updates (ε := ε) (BitVec.ofNat 16 exception) m₁.cpu with
      ⟨_, c, hok, hc⟩ | ⟨e, c, herror, hc⟩
    · rw [hok]
      refine .inl ⟨exception, _, rfl, hdecides, hlevels, ?_⟩
      rw [hcpu] at hc
      exact hc
    · rw [herror]
      refine .inr ⟨_, .inr ⟨e, rfl⟩, hlevels, ?_⟩
      rw [hcpu] at hc
      exact hc

end Commands

namespace Machine

variable {μ : Type} {m m' : Machine μ} {exception : Nat}

theorem getExceptionPriority_congr (hlevels : m'.levels = m.levels)
    (hnum : m'.cpu.nvic.numInterrupts = m.cpu.nvic.numInterrupts) (exception : Nat) :
    m'.getExceptionPriority exception = m.getExceptionPriority exception := by
  unfold getExceptionPriority
  rw [hlevels, hnum]

theorem neg_two_le_getExceptionPriority (h : 2 ≤ exception) :
    -2 ≤ m.getExceptionPriority exception := by
  unfold getExceptionPriority
  split_ifs <;> omega

theorem getExceptionPriority_mem (h : 4 ≤ exception)
    (himpl : exception < 16 + m.cpu.nvic.numInterrupts) :
    0 ≤ m.getExceptionPriority exception ∧ m.getExceptionPriority exception < 256 := by
  unfold getExceptionPriority
  split_ifs <;> omega

end Machine

namespace Decides

variable {μ : Type} {m : Machine μ} {exception : Nat}

theorem implemented (h : Decides m exception) :
    exception = 2 ∨ 4 ≤ exception ∧ exception < 16 + m.cpu.nvic.numInterrupts := by
  cases h with
  | nmi => exact .inl rfl
  | pendsv => omega
  | systick => omega
  | interrupt hfound =>
    obtain ⟨⟨irq, rfl, hp⟩, -⟩ := m.getPendingException_some hfound
    have := m.lt_of_isPending hp.1
    omega

theorem lt_executionPriority (h : Decides m exception) (hnmi : exception ≠ 2) :
    m.getExceptionPriority exception < m.executionPriority := by
  cases h with
  | nmi => exact absurd rfl hnmi
  | pendsv _ hlt => exact hlt
  | systick _ hlt => exact hlt
  | interrupt hfound =>
    obtain ⟨⟨irq, rfl, hp⟩, -⟩ := m.getPendingException_some hfound
    exact hp.2.2

end Decides

/-! ## The invariant -/

namespace MachineHistory

variable {μ ε : Type} [ArmMemory μ ε]

/-- The controller knows the last active exception, and none below it is more urgent. -/
structure Followed (h : MachineHistory μ) : Prop where
  current : h.active.headD 0 = h.machine.cpu.nvic.currentException.toNat
  real : ∀ a ∈ h.active, 2 ≤ a
  lowest : ∀ a ∈ h.active, h.machine.getExceptionPriority (h.active.headD 0) ≤
    h.machine.getExceptionPriority a

namespace Settled

variable {h : MachineHistory μ} {exception : Nat}

/-- A pending PendSV that cannot preempt keeps everything else waiting. -/
theorem not_pendsv (hs : h.Settled) {other : Nat} (hother : h.machine.Waits other)
    (hlt : h.machine.getExceptionPriority other < h.machine.executionPriority)
    (hpendsv : ¬(h.machine.pendsvPending = true ∧
      h.machine.getExceptionPriority 14 < h.machine.executionPriority)) :
    h.machine.pendsvPending = false := by
  rw [← Bool.not_eq_true]
  intro hpending
  have hfirst := hs.pendsv hpending other hother
  simp only [Precedes, Machine.urgency] at hfirst
  exact hpendsv ⟨hpending, by omega⟩

/-- The exception that a check decides for goes before all that wait. -/
theorem first (hs : h.Settled) (hd : Decides h.machine exception) (hnmi : exception ≠ 2)
    {other : Nat} (hother : h.machine.Waits other) :
    Precedes (h.machine.urgency exception) (h.machine.urgency other) := by
  cases hd with
  | nmi => exact absurd rfl hnmi
  | pendsv hpending _ => exact hs.pendsv hpending other hother
  | systick hpending hlt hpendsv =>
    have hno := hs.not_pendsv (.inr (.inl ⟨rfl, hpending⟩)) hlt hpendsv
    exact hs.systick hno hpending other hother
  | interrupt hfound hpendsv hsystick =>
    obtain ⟨⟨irq, rfl, hp⟩, hfirst⟩ := h.machine.getPendingException_some hfound
    have hwaits : h.machine.Waits (irq + 16) := .inr (.inr ⟨irq, rfl, hp.1, hp.2.1⟩)
    have hno := hs.not_pendsv hwaits hp.2.2 hpendsv
    rcases hother with ⟨-, hpending⟩ | ⟨-, hpending⟩ | ⟨i, rfl, hpending, henabled⟩
    · rw [hno] at hpending
      cases hpending
    · have hbefore := hs.systick hno hpending _ hwaits
      simp only [Precedes, Machine.urgency] at hbefore
      exact absurd ⟨hpending, by have := hp.2.2; omega⟩ hsystick
    · by_cases hi : h.machine.getExceptionPriority (i + 16) < h.machine.executionPriority
      · exact hfirst i ⟨hpending, henabled, hi⟩
      · exact .inl (lt_of_lt_of_le hp.2.2 (not_lt.mp hi))

end Settled

namespace Followed

variable {h : MachineHistory μ} {exception : Nat}

theorem eq_nil_of_current (hf : h.Followed) (hidle : h.active.headD 0 = 0) : h.active = [] := by
  cases hactive : h.active with
  | nil => rfl
  | cons a rest =>
    have hreal := hf.real a (hactive ▸ List.mem_cons_self)
    rw [hactive] at hidle
    have : a = 0 := hidle
    omega

/-- What is below the execution priority preempts every active exception, if BASEPRI hides none of
them, and passes the masks of the controller. -/
theorem preempts (hf : h.Followed) (hs : h.Settled) {p : Int} (hp : 0 ≤ p ∧ p < 256)
    (hlt : p < h.machine.executionPriority) :
    (∀ a ∈ h.active, p < h.machine.getExceptionPriority a) ∧ p < h.machine.nvicLevel := by
  unfold Machine.executionPriority at hlt
  unfold Machine.nvicLevel maskLevel
  split_ifs at hlt ⊢ with hfault hprimask hbasepri hidle
  · omega
  · omega
  · exact ⟨fun a ha => hlt.trans_le ((hs.basepri.resolve_left hbasepri) a ha), hlt⟩
  · refine ⟨fun a ha => ?_, hp.2⟩
    have hcurrent := hf.current
    rw [hidle] at hcurrent
    rw [hf.eq_nil_of_current hcurrent] at ha
    cases ha
  · refine ⟨fun a ha => ?_, hp.2⟩
    rw [← hf.current] at hlt
    exact hlt.trans_le (hf.lowest a ha)

theorem mayTake (hf : h.Followed) (hs : h.Settled) (hd : Decides h.machine exception)
    (hnmi : exception ≠ 2) : h.machine.MayTake h.active exception := by
  have himpl := hd.implemented.resolve_left hnmi
  obtain ⟨hpreempts, hmask⟩ := hf.preempts hs
    (Machine.getExceptionPriority_mem himpl.1 himpl.2) (hd.lt_executionPriority hnmi)
  exact ⟨hpreempts, hmask.trans_le hs.masks, hmask, fun _ => hs.first hd hnmi⟩

end Followed

theorem takesSoundly {h : MachineHistory μ} (hf : h.Followed) (hs : h.Settled) :
    h.TakesSoundly := by
  intro exception m' hcheck hnmi
  rcases checkPendingExceptions_progress (ε := ε) h.machine with
    ⟨n, _, hok, hd, -⟩ | ⟨_, hnone | ⟨e, herror⟩, -⟩
  · rw [hcheck] at hok
    injection hok with hn
    cases hn
    exact hf.mayTake hs hd hnmi
  · rw [hcheck] at hnone
    injection hnone with hn
    cases hn
  · rw [hcheck] at herror
    cases herror

/-- Priorities that look the same and the same exception in progress. -/
theorem Followed.congr {h : MachineHistory μ} {m : Machine μ} (hf : h.Followed)
    (hcurrent : m.cpu.nvic.currentException = h.machine.cpu.nvic.currentException)
    (hpriority : ∀ a ∈ h.active, m.getExceptionPriority a = h.machine.getExceptionPriority a) :
    Followed ⟨m, h.active⟩ := by
  refine ⟨hf.current.trans (congrArg _ hcurrent.symm), hf.real, fun a ha => ?_⟩
  cases hactive : h.active with
  | nil =>
    rw [hactive] at ha
    cases ha
  | cons b rest =>
    have hlowest := hf.lowest a ha
    rw [hactive] at hlowest
    have hb : m.getExceptionPriority b = h.machine.getExceptionPriority b :=
      hpriority b (hactive ▸ List.mem_cons_self)
    show m.getExceptionPriority b ≤ m.getExceptionPriority a
    rw [hb, hpriority a ha]
    exact hlowest

theorem Followed.idle {m : Machine μ} (hidle : m.cpu.nvic.currentException = 0) :
    Followed ⟨m, []⟩ :=
  ⟨by rw [hidle]; rfl, nofun, nofun⟩

/-- The exception that a check takes is the most urgent of the active ones. -/
theorem Followed.taken {h : MachineHistory μ} {m' : Machine μ} {exception : Nat}
    (hf : h.Followed) (hs : h.Settled) (hd : Decides h.machine exception)
    (hlevels : m'.levels = h.machine.levels)
    (hprogress : m'.cpu.progress = (BitVec.ofNat 16 exception, h.machine.cpu.nvic.numInterrupts)) :
    Followed ⟨m', exception :: h.active⟩ := by
  obtain ⟨hcurrent, hnum⟩ := Prod.ext_iff.mp hprogress
  have hpriority := Machine.getExceptionPriority_congr hlevels hnum
  have himpl := hd.implemented
  have hsmall := h.machine.cpu.nvic.implemented
  refine ⟨?_, ?_, ?_⟩
  · show exception = m'.cpu.nvic.currentException.toNat
    rw [show m'.cpu.nvic.currentException = BitVec.ofNat 16 exception from hcurrent,
      BitVec.toNat_ofNat, Nat.mod_eq_of_lt (by omega)]
  · rintro a (_ | ⟨_, ha⟩)
    · omega
    · exact hf.real a ha
  · rintro a (_ | ⟨_, ha⟩)
    · exact le_refl _
    · show m'.getExceptionPriority exception ≤ m'.getExceptionPriority a
      rw [hpriority, hpriority]
      by_cases hnmi : exception = 2
      · subst hnmi
        exact Machine.neg_two_le_getExceptionPriority (hf.real a ha)
      · exact ((hf.mayTake hs hd hnmi).preempts a ha).le

theorem Followed.step {h : MachineHistory μ} {e : MachineEvent μ} (hf : h.Followed)
    (hpossible : h.Possible e) (hflat : h.Flat e) : (h.step e).Followed := by
  cases e with
  | check =>
    show (h.afterCheck (checkPendingExceptions h.machine)).Followed
    rcases checkPendingExceptions_progress (ε := ε) h.machine with
      ⟨n, m', hok, hd, hlevels, hprogress⟩ | ⟨m', hother, hlevels, hprogress⟩
    · rw [hok]
      exact hf.taken hflat hd hlevels hprogress
    · obtain ⟨hcurrent, hnum⟩ := Prod.ext_iff.mp hprogress
      have hsame : Followed ⟨m', h.active⟩ :=
        hf.congr hcurrent fun a _ => Machine.getExceptionPriority_congr hlevels hnum a
      rcases hother with hnone | ⟨e, herror⟩
      · rw [hnone]
        exact hsame
      · rw [herror]
        exact hsame
  | exceptionReturn v =>
    show (h.afterReturn (exceptionReturn v h.machine.cpu)).Followed
    rcases exceptionReturn_updates (ε := ε) v h.machine.cpu with
      ⟨_, c, hok, hprogress⟩ | ⟨e, c, herror, hprogress⟩
    · rw [hok]
      have htail : h.active.tail = [] := by
        have hlength : h.active.length ≤ 1 := hflat
        rw [← List.length_eq_zero_iff, List.length_tail]
        omega
      show Followed ⟨_, h.active.tail⟩
      rw [htail]
      exact .idle (Prod.ext_iff.mp hprogress).1
    · rw [herror]
      obtain ⟨hcurrent, hnum⟩ := Prod.ext_iff.mp hprogress
      refine hf.congr hcurrent fun a _ => Machine.getExceptionPriority_congr ?_ hnum a
      rfl
  | work m => exact hf.congr hpossible hflat

/-- In every run with flat steps from an idle controller, each check in a settled state takes only
exceptions that may be taken. -/
theorem takes_soundly_run (h : MachineHistory μ)
    (hreach : Reachable (fun h => h.active = [] ∧ h.machine.cpu.nvic.currentException = 0)
      (fun h e h' => h.Possible e ∧ h.Flat e ∧ h' = h.step e) h) :
    h.Settled → h.TakesSoundly := by
  refine takesSoundly (hreach.invariant ?_ ?_)
  · rintro ⟨m, _⟩ ⟨rfl, hidle⟩
    exact .idle hidle
  · rintro h e _ hf ⟨hpossible, hflat, rfl⟩
    exact hf.step hpossible hflat

/-- A processor after reset with interrupts 0 to 2 enabled at priorities 0, 0x80 and 0x80, of which
some are pending, and PendSV at priority 0xC0. -/
def interruptPending (pendsvPending : Bool) (pending : BitVec 32) : MachineHistory FlatMemory where
  machine :=
    { cpu := { booted 0x1000 none with
        nvic := { (booted 0x1000 none).nvic with pending := fun _ => pending } }
      levels :=
        { enabled := fun _ => 7, priority := fun irq => if irq = 0 then 0 else 0x80,
          systemPriority := fun _ => 0xC0, primask := false, faultmask := false, basepri := 0 }
      primask := false
      basepri := 0
      nmiPending := false
      pendsvPending := pendsvPending
      systickPending := false
      tickPending := false }
  active := []

/-- Interrupts arrive. -/
def arrive (h : MachineHistory μ) (pending : BitVec 32) : MachineEvent μ :=
  .work { h.machine with
    cpu := { h.machine.cpu with nvic := { h.machine.cpu.nvic with pending := fun _ => pending } } }

theorem flat_arrive (h : MachineHistory μ) (pending : BitVec 32) :
    h.Possible (h.arrive pending) ∧ h.Flat (h.arrive pending) :=
  ⟨rfl, fun _ _ => rfl⟩

/-- The handler of interrupt 1, while the other two arrive. -/
def interrupted : MachineHistory FlatMemory :=
  let h := (interruptPending false 2).step .check
  h.step (h.arrive 5)

/-- Interrupt 0 is taken inside the handler, and interrupt 2 waits. -/
theorem takes_soundly_run_interrupted :
    Reachable (fun h => h.active = [] ∧ h.machine.cpu.nvic.currentException = 0)
        (fun h e h' => h.Possible e ∧ h.Flat e ∧ h' = h.step e) interrupted ∧
      interrupted.Settled ∧ interrupted.TakesSoundly ∧
      (interrupted.active, (interrupted.step .check).active) = ([17], [16, 17]) := by
  have hquiet : (interruptPending false 2).Settled :=
    ⟨by decide, .inl rfl, nofun, fun _ htick => by cases htick <;> contradiction⟩
  have hreach : Reachable (fun h => h.active = [] ∧ h.machine.cpu.nvic.currentException = 0)
      (fun h e h' => h.Possible e ∧ h.Flat e ∧ h' = h.step e) interrupted := by
    obtain ⟨hpossible, hflat⟩ := flat_arrive ((interruptPending false 2).step .check) 5
    exact .step (.step (e := .check) (.init ⟨rfl, rfl⟩) ⟨trivial, hquiet, rfl⟩)
      ⟨hpossible, hflat, rfl⟩
  have hsettled : interrupted.Settled :=
    ⟨by decide +kernel, .inl (by decide +kernel), fun hpendsv => absurd hpendsv (by decide +kernel),
      fun _ htick => absurd htick (by decide +kernel)⟩
  exact ⟨hreach, hsettled, takes_soundly_run _ hreach hsettled, by decide +kernel⟩

/-- PendSV is taken before an interrupt that is more urgent. -/
theorem pendsv_taken_before_interrupt : ¬(interruptPending true 1).TakesSoundly := by
  intro hsound
  have htaken : ((interruptPending true 1).afterCheck
      (checkPendingExceptions (interruptPending true 1).machine)).active = [14] := by decide +kernel
  cases hcheck : checkPendingExceptions (interruptPending true 1).machine with
  | error e m =>
    rw [hcheck] at htaken
    cases htaken
  | ok taken m =>
    rw [hcheck] at htaken
    cases taken with
    | none => cases htaken
    | some exception =>
      cases htaken
      have hwaits : (interruptPending true 1).machine.Waits 16 :=
        .inr (.inr ⟨0, rfl, by decide, by decide⟩)
      rcases (hsound 14 m hcheck (by decide)).first 16 hwaits with hlt | ⟨heq, -⟩
      · exact absurd hlt (by decide)
      · exact absurd heq (by decide)

end MachineHistory

end Rax.CortexM

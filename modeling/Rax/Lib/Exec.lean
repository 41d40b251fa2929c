import Mathlib.Tactic.Common

/-!
# Straight-line execution with early exits

A step either carries on with a new state or leaves with an exit. Runs of a list of steps
stop at the first exit. The rules at the end compare two runs.
-/

namespace Rax

variable {α σ τ ε : Type*}

/-- Result of one step or of a run of steps. -/
inductive Outcome (σ ε : Type*) where
  | next (s : σ)
  | exit (e : ε) (s : σ)
  deriving DecidableEq

namespace Outcome

/-- The state reached, whichever way the run ended. -/
def state : Outcome σ ε → σ
  | next s | exit _ s => s

/-- Change the state of an outcome. -/
def map (f : σ → τ) : Outcome σ ε → Outcome τ ε
  | next s => next (f s)
  | exit e s => exit e (f s)

/-- Two outcomes that carry on in `R`-related states, or leave with the same exit in
`E`-related states. -/
inductive Rel (R E : σ → τ → Prop) : Outcome σ ε → Outcome τ ε → Prop where
  | next {s : σ} {t : τ} (h : R s t) : Rel R E (next s) (next t)
  | exit {e : ε} {s : σ} {t : τ} (h : E s t) : Rel R E (exit e s) (exit e t)

namespace Rel

variable {υ : Type*} {R E : σ → τ → Prop} {o : Outcome σ ε} {p : Outcome τ ε}

theorem next_inv {s : σ} (h : Rel R E (.next s) p) : ∃ t, p = .next t ∧ R s t := by
  cases h with
  | next h => exact ⟨_, rfl, h⟩

theorem exit_inv {e : ε} {s : σ} (h : Rel R E (.exit e s) p) : ∃ t, p = .exit e t ∧ E s t := by
  cases h with
  | exit h => exact ⟨_, rfl, h⟩

theorem trans {R₂ E₂ : τ → υ → Prop} {R₃ E₃ : σ → υ → Prop} {q : Outcome υ ε} (h : Rel R E o p)
    (h₂ : Rel R₂ E₂ p q)
    (hR : ∀ s t u, R s t → R₂ t u → R₃ s u) (hE : ∀ s t u, E s t → E₂ t u → E₃ s u) :
    Rel R₃ E₃ o q := by
  cases h with
  | next h =>
    obtain ⟨u, rfl, hu⟩ := h₂.next_inv
    exact .next (hR _ _ _ h hu)
  | exit h =>
    obtain ⟨u, rfl, hu⟩ := h₂.exit_inv
    exact .exit (hE _ _ _ h hu)

theorem of_eq {R E : σ → σ → Prop} (hR : ∀ s, R s s) (hE : ∀ s, E s s) {o p : Outcome σ ε}
    (h : o = p) : Rel R E o p := by
  subst h
  cases o with
  | next s => exact .next (hR s)
  | exit e s => exact .exit (hE s)

theorem state {R : σ → τ → Prop} (h : Rel R R o p) : R o.state p.state := by
  cases h with
  | next h => exact h
  | exit h => exact h

end Rel

end Outcome

/-- Run a list of steps up to the first exit. -/
def runSeq (exec : α → σ → Outcome σ ε) : List α → σ → Outcome σ ε
  | [], s => .next s
  | a :: as, s =>
    match exec a s with
    | .next s' => runSeq exec as s'
    | .exit e s' => .exit e s'

variable {β : Type*} {exec : α → σ → Outcome σ ε} {exec' : β → τ → Outcome τ ε}

theorem runSeq_cons_next {a : α} {as : List α} {s s' : σ} (h : exec a s = .next s') :
    runSeq exec (a :: as) s = runSeq exec as s' := by
  simp [runSeq, h]

theorem runSeq_cons_exit {a : α} {as : List α} {s s' : σ} {e : ε} (h : exec a s = .exit e s') :
    runSeq exec (a :: as) s = .exit e s' := by
  simp [runSeq, h]

/-- Every step taken from `s` along the list meets `P` in the state before it. -/
def Along (exec : α → σ → Outcome σ ε) (P : α → σ → Prop) : List α → σ → Prop
  | [], _ => True
  | a :: as, s => P a s ∧ ∀ s', exec a s = .next s' → Along exec P as s'

/-- If single steps that meet `P` keep two machines related, so do whole runs. -/
theorem runSeq_sim {R E : σ → τ → Prop} {P : α → σ → Prop} (f : α → β)
    (step : ∀ a s t, P a s → R s t → Outcome.Rel R E (exec a s) (exec' (f a) t))
    {as : List α} {s : σ} {t : τ} (hP : Along exec P as s) (hR : R s t) :
    Outcome.Rel R E (runSeq exec as s) (runSeq exec' (as.map f) t) := by
  induction as generalizing s t with
  | nil => exact .next hR
  | cons a as ih =>
    have hstep := step a s t hP.1 hR
    rw [List.map_cons]
    cases ha : exec a s with
    | next s' =>
      cases hb : exec' (f a) t with
      | next t' =>
        rw [ha, hb] at hstep
        cases hstep with
        | next hR' =>
          rw [runSeq_cons_next ha, runSeq_cons_next hb]
          exact ih (hP.2 s' ha) hR'
      | exit e t' => rw [ha, hb] at hstep; cases hstep
    | exit e s' =>
      cases hb : exec' (f a) t with
      | next t' => rw [ha, hb] at hstep; cases hstep
      | exit e' t' =>
        rw [ha, hb] at hstep
        rw [runSeq_cons_exit ha, runSeq_cons_exit hb]
        cases hstep with
        | exit hE => exact .exit hE

end Rax

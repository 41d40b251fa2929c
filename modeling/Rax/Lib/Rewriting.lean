import Rax.Lib.Exec

/-!
# Forward passes with a table

A pass walks over a list of steps with a table, replaces each step by another one and
updates the table. What it does is right if the table says something true of the state in
front of each step. What makes it true may need more bookkeeping than the pass itself keeps;
that is carried as a ghost value beside the table.
-/

namespace Rax

variable {α σ ε τ γ : Type*}

/-- Rewrite a list of steps, carrying a table along. -/
def rewriteSeq (step : τ → α → α × τ) : τ → List α → List α
  | _, [] => []
  | t, a :: as => (step t a).1 :: rewriteSeq step (step t a).2 as

/-- Every step of the list meets `C` for the table and the ghost value in front of it. -/
def Throughout (step : τ → α → α × τ) (ghost : τ → γ → α → γ) (C : τ → γ → α → Prop) :
    τ → γ → List α → Prop
  | _, _, [] => True
  | t, g, a :: as => C t g a ∧ Throughout step ghost C (step t a).2 (ghost t g a) as

/-- Every step taken from `s` meets `Q` for the table and the state in front of it. -/
def AlongWith (exec : α → σ → Outcome σ ε) (step : τ → α → α × τ) (Q : τ → α → σ → Prop) :
    τ → List α → σ → Prop
  | _, [], _ => True
  | t, a :: as, s => Q t a s ∧ ∀ s', exec a s = .next s' → AlongWith exec step Q (step t a).2 as s'

variable {exec : α → σ → Outcome σ ε} {step : τ → α → α × τ} {ghost : τ → γ → α → γ}
  {C : τ → γ → α → Prop} {P : α → σ → Prop} {Q : τ → α → σ → Prop}

variable {as : List α}

/-- An invariant of table, ghost value and state that steps keep holds along the whole run. -/
theorem alongWith_of_invariant (I : τ → γ → σ → Prop)
    (use : ∀ t g a s, I t g s → C t g a → P a s → Q t a s)
    (keep : ∀ t g a s s', I t g s → C t g a → P a s → exec a s = .next s' →
      I (step t a).2 (ghost t g a) s')
    {t : τ} {g : γ} {s : σ} (hI : I t g s) (hC : Throughout step ghost C t g as)
    (hP : Along exec P as s) :
    AlongWith exec step Q t as s := by
  induction as generalizing t g s with
  | nil => trivial
  | cons a as ih =>
    refine ⟨use t g a s hI hC.1 hP.1, fun s' ha => ?_⟩
    exact ih (keep t g a s s' hI hC.1 hP.1 ha) hC.2 (hP.2 s' ha)

/-- A pass preserves a run in which every replacement does what the replaced step does. -/
theorem runSeq_rewriteSeq {t : τ} {s : σ}
    (h : AlongWith exec step (fun t a s => exec (step t a).1 s = exec a s) t as s) :
    runSeq exec (rewriteSeq step t as) s = runSeq exec as s := by
  induction as generalizing t s with
  | nil => rfl
  | cons a as ih =>
    cases ha : exec a s with
    | next s' =>
      rw [rewriteSeq, runSeq_cons_next ha, runSeq_cons_next (h.1.trans ha)]
      exact ih (h.2 s' ha)
    | exit e s' => rw [rewriteSeq, runSeq_cons_exit ha, runSeq_cons_exit (h.1.trans ha)]

/-- The same up to a relation that steps respect. -/
theorem runSeq_rewriteSeq_rel {R : σ → σ → Prop} (htrans : ∀ s t u, R s t → R t u → R s u)
    (hexec : ∀ a s s', R s s' → Outcome.Rel R R (exec a s) (exec a s')) {t : τ} {s s' : σ}
    (h : AlongWith exec step (fun t a s => Outcome.Rel R R (exec a s) (exec (step t a).1 s)) t as s)
    (hs : R s s') :
    Outcome.Rel R R (runSeq exec as s) (runSeq exec (rewriteSeq step t as) s') := by
  induction as generalizing t s s' with
  | nil => exact .next hs
  | cons a as ih =>
    have hstep := h.1.trans (hexec (step t a).1 s s' hs) htrans htrans
    cases ha : exec a s with
    | next s₁ =>
      rw [ha] at hstep
      obtain ⟨s₁', ha', hs₁⟩ := hstep.next_inv
      rw [rewriteSeq, runSeq_cons_next ha, runSeq_cons_next ha']
      exact ih (h.2 s₁ ha) hs₁
    | exit e s₁ =>
      rw [ha] at hstep
      obtain ⟨s₁', ha', hs₁⟩ := hstep.exit_inv
      rw [rewriteSeq, runSeq_cons_exit ha, runSeq_cons_exit ha']
      exact .exit hs₁

theorem AlongWith.imp {Q' : τ → α → σ → Prop} (himp : ∀ t a s, Q t a s → Q' t a s) {t : τ} {s : σ}
    (h : AlongWith exec step Q t as s) :
    AlongWith exec step Q' t as s := by
  induction as generalizing t s with
  | nil => trivial
  | cons a as ih => exact ⟨himp t a s h.1, fun s' ha => ih (h.2 s' ha)⟩

/-- What holds along a run in terms of the table, in terms of the steps and their replacements. -/
theorem alongWith_iff_along_zip {P : α × α → σ → Prop}
    (h : ∀ t a s, Q t a s ↔ P (a, (step t a).1) s) {t : τ} {s : σ} :
    AlongWith exec step Q t as s ↔
      Along (fun p => exec p.1) P (as.zip (rewriteSeq step t as)) s := by
  induction as generalizing t s with
  | nil => exact Iff.rfl
  | cons a as ih =>
    exact and_congr (h t a s) (forall_congr' fun s' => imp_congr_right fun _ => ih)

theorem along_of_forall (h : ∀ a s, P a s) (as : List α) (s : σ) : Along exec P as s := by
  induction as generalizing s with
  | nil => trivial
  | cons a as ih => exact ⟨h a s, fun s' _ => ih s'⟩

end Rax

import Mathlib.Tactic.Common

/-!
# Reachable states

States that a transition system reaches from its initial states, and the rule that a
property which holds initially and is kept by every step holds in all of them.
-/

universe u v

namespace Rax

variable {σ : Type u} {ε : Type v}

/-- The states reached from initial ones by finitely many labelled steps. -/
inductive Reachable (Init : σ → Prop) (Step : σ → ε → σ → Prop) : σ → Prop
  | init {s : σ} : Init s → Reachable Init Step s
  | step {s s' : σ} {e : ε} : Reachable Init Step s → Step s e s' → Reachable Init Step s'

/-- The invariant rule. -/
theorem Reachable.invariant {Init : σ → Prop} {Step : σ → ε → σ → Prop} {Inv : σ → Prop}
    (hinit : ∀ s, Init s → Inv s) (hstep : ∀ s e s', Inv s → Step s e s' → Inv s')
    {s : σ} (h : Reachable Init Step s) : Inv s := by
  induction h with
  | init h => exact hinit _ h
  | step _ hs ih => exact hstep _ _ _ ih hs

end Rax

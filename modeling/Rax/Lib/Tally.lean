import Mathlib.Tactic.Common

/-!
# Counting along a run

Sums over the steps of a run. If every step raises a counter by what is due and by something
extra, the counter ends up at what is due exactly if no step adds anything extra.
-/

namespace Rax

variable {σ ε : Type*} (step : σ → ε → σ)

/-- The sum of a quantity over the steps of a run. -/
def tally (f : σ → ε → Nat) : σ → List ε → Nat
  | _, [] => 0
  | s, e :: es => f s e + tally f (step s e) es

/-- A property of every step of a run. -/
def AtEach (P : σ → ε → Prop) : σ → List ε → Prop
  | _, [] => True
  | s, e :: es => P s e ∧ AtEach P (step s e) es

variable {step} {f g : σ → ε → Nat}

theorem tally_add (s : σ) (es : List ε) :
    tally step (fun s e => f s e + g s e) s es = tally step f s es + tally step g s es := by
  induction es generalizing s with
  | nil => rfl
  | cons e es ih =>
    rw [tally, tally, tally, ih]
    omega

theorem tally_eq_zero_iff (s : σ) (es : List ε) :
    tally step f s es = 0 ↔ AtEach step (fun s e => f s e = 0) s es := by
  induction es generalizing s with
  | nil => exact iff_of_true rfl trivial
  | cons e es ih => rw [tally, AtEach, Nat.add_eq_zero_iff, ih]

/-- A counter that every step raises by `f` ends up raised by the sum. -/
theorem counter_foldl {count : σ → Nat} (h : ∀ s e, count (step s e) = count s + f s e) (s : σ)
    (es : List ε) : count (es.foldl step s) = count s + tally step f s es := by
  induction es generalizing s with
  | nil => rfl
  | cons e es ih =>
    rw [List.foldl_cons, ih, h, tally]
    omega

/-- A counter shows what is due exactly if no step adds more. -/
theorem counter_eq_due_iff {count : σ → Nat} {due extra : σ → ε → Nat}
    (h : ∀ s e, count (step s e) = count s + (due s e + extra s e)) (s : σ) (es : List ε) :
    count (es.foldl step s) = count s + tally step due s es ↔
      AtEach step (fun s e => extra s e = 0) s es := by
  rw [counter_foldl h, tally_add, ← tally_eq_zero_iff]
  omega

end Rax

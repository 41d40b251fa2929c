import Mathlib.Data.Option.Basic
import Mathlib.Tactic.Common

/-!
# The last write under a selector

Writes to registers of which one selects what the others act on. A cell that changes only by
writes to one register under a selection holds what was written there last.
-/

namespace Rax

variable {ρ υ σ β : Type*} [DecidableEq ρ]

/-- The last value written to `reg` while the value of `selReg` was selected by `P`. -/
def lastWrite (selReg reg : ρ) (P : υ → Bool) : υ → List (ρ × υ) → Option υ
  | _, [] => none
  | sel, (r, v) :: writes =>
    (lastWrite selReg reg P (if r = selReg then v else sel) writes).or
      (if r = reg ∧ P sel = true then some v else none)

/-- A cell holds what was written last, and its old value if nothing was written. -/
theorem cell_eq_lastWrite (step : σ → ρ × υ → σ) (sel : σ → υ) (get : σ → β) (f : υ → β)
    {selReg reg : ρ} {P : υ → Bool} {Ok : ρ × υ → Prop}
    (hsel : ∀ s r v, Ok (r, v) → sel (step s (r, v)) = if r = selReg then v else sel s)
    (hget : ∀ s r v, Ok (r, v) →
      get (step s (r, v)) = if r = reg ∧ P (sel s) = true then f v else get s)
    (writes : List (ρ × υ)) (hok : ∀ w ∈ writes, Ok w) (s : σ) :
    get (writes.foldl step s) =
      ((lastWrite selReg reg P (sel s) writes).map f).getD (get s) := by
  induction writes generalizing s with
  | nil => rfl
  | cons w writes ih =>
    obtain ⟨r, v⟩ := w
    have hw : Ok (r, v) := hok (r, v) List.mem_cons_self
    rw [List.foldl_cons, ih (fun w hmem => hok w (List.mem_cons_of_mem _ hmem)), hsel s r v hw,
      hget s r v hw, lastWrite]
    cases lastWrite selReg reg P (if r = selReg then v else sel s) writes with
    | some u => rfl
    | none =>
      by_cases hhit : r = reg ∧ P (sel s) = true
      · rw [if_pos hhit, if_pos hhit]
        rfl
      · rw [if_neg hhit, if_neg hhit]
        rfl

end Rax

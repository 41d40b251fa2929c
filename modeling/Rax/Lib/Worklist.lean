import Mathlib.Algebra.BigOperators.Group.Finset.Basic
import Mathlib.Algebra.Order.BigOperators.Group.Finset
import Mathlib.Logic.Relation

/-!
# Exploring a graph with a stack

A depth-first exploration with a stack of nodes to visit and a set of nodes seen. When only
finitely many nodes have successors it ends, and it has then seen exactly the nodes that the
first one leads to.
-/

namespace Rax

open Relation

variable {κ : Type*} [DecidableEq κ] (succ : κ → List κ)

/-- At most `n` nodes are taken off the stack; nothing if that does not empty it. -/
def explore : Nat → List κ → Finset κ → Option (Finset κ)
  | 0, _, _ => none
  | _ + 1, [], seen => some seen
  | n + 1, k :: stack, seen =>
    if k ∈ seen then explore n stack seen
    else explore n (((succ k).filter (· ∉ insert k seen)).reverse ++ stack) (insert k seen)

/-- Nodes that the first one leads to. -/
def Leads (a b : κ) : Prop := ReflTransGen (fun a b => b ∈ succ a) a b

/-- What an exploration from `start` keeps. -/
structure Exploring (start : κ) (stack : List κ) (seen : Finset κ) : Prop where
  found : start ∈ seen ∨ start ∈ stack
  closed : ∀ a ∈ seen, ∀ b ∈ succ a, b ∈ seen ∨ b ∈ stack
  reached : ∀ a, a ∈ seen ∨ a ∈ stack → Leads succ start a

variable {succ} {start k : κ} {stack : List κ} {seen : Finset κ}

omit [DecidableEq κ] in
theorem Exploring.skip (h : Exploring succ start (k :: stack) seen) (hk : k ∈ seen) :
    Exploring succ start stack seen := by
  have hpop {a : κ} (ha : a ∈ seen ∨ a ∈ k :: stack) : a ∈ seen ∨ a ∈ stack := by
    rcases ha with ha | ha
    · exact .inl ha
    · rcases List.mem_cons.mp ha with rfl | ha
      · exact .inl hk
      · exact .inr ha
  refine ⟨hpop h.found, fun a ha b hab => hpop (h.closed a ha b hab), fun a ha => ?_⟩
  exact h.reached a (ha.imp_right (List.mem_cons_of_mem _))

theorem Exploring.visit (h : Exploring succ start (k :: stack) seen) :
    Exploring succ start (((succ k).filter (· ∉ insert k seen)).reverse ++ stack)
      (insert k seen) := by
  set seen' := insert k seen with hseen'
  have hk : k ∈ seen' := Finset.mem_insert_self k seen
  have hpushed (b : κ) : b ∈ ((succ k).filter (· ∉ seen')).reverse ++ stack ↔
      b ∈ succ k ∧ b ∉ seen' ∨ b ∈ stack := by
    simp
  have hmove {a : κ} (ha : a ∈ seen ∨ a ∈ k :: stack) :
      a ∈ seen' ∨ a ∈ ((succ k).filter (· ∉ seen')).reverse ++ stack := by
    rcases ha with ha | ha
    · exact .inl (Finset.mem_insert_of_mem ha)
    · rcases List.mem_cons.mp ha with rfl | ha
      · exact .inl hk
      · exact .inr ((hpushed a).mpr (.inr ha))
  refine ⟨hmove h.found, fun a ha b hab => ?_, fun a ha => ?_⟩
  · rcases Finset.mem_insert.mp ha with rfl | ha
    · by_cases hb : b ∈ seen'
      · exact .inl hb
      · exact .inr ((hpushed b).mpr (.inl ⟨hab, hb⟩))
    · exact hmove (h.closed a ha b hab)
  · have hstart : Leads succ start k := h.reached k (.inr List.mem_cons_self)
    rcases ha with ha | ha
    · rcases Finset.mem_insert.mp ha with rfl | ha
      · exact hstart
      · exact h.reached a (.inl ha)
    · rcases (hpushed a).mp ha with ⟨ha, -⟩ | ha
      · exact hstart.tail ha
      · exact h.reached a (.inr (List.mem_cons_of_mem _ ha))

omit [DecidableEq κ] in
theorem Exploring.mem_iff (h : Exploring succ start [] seen) {a : κ} :
    a ∈ seen ↔ Leads succ start a := by
  refine ⟨fun ha => h.reached a (.inl ha), fun ha => ?_⟩
  induction ha with
  | refl => simpa using h.found
  | tail _ hbc ih => simpa using h.closed _ ih _ hbc

/-- An exploration that ends has seen exactly what it leads to. -/
theorem mem_of_explore {n : Nat} {result : Finset κ} (hrun : explore succ n stack seen = some result)
    (h : Exploring succ start stack seen) {a : κ} : a ∈ result ↔ Leads succ start a := by
  induction n generalizing stack seen with
  | zero => cases hrun
  | succ n ih =>
    cases stack with
    | nil =>
      obtain rfl : seen = result := Option.some.inj hrun
      exact h.mem_iff
    | cons k stack =>
      rw [explore] at hrun
      by_cases hk : k ∈ seen
      · rw [if_pos hk] at hrun
        exact ih hrun (h.skip hk)
      · rw [if_neg hk] at hrun
        exact ih hrun h.visit

/-- Visits that may still come: one for each node on the stack and for each edge of a node
not yet seen. -/
def pending (succ : κ → List κ) (nodes : Finset κ) (stack : List κ) (seen : Finset κ) : Nat :=
  stack.length + ∑ k ∈ nodes \ seen, (succ k).length

theorem pending_visit {nodes : Finset κ} (hnodes : ∀ k ∉ nodes, succ k = []) (hk : k ∉ seen) :
    pending succ nodes (((succ k).filter (· ∉ insert k seen)).reverse ++ stack) (insert k seen) <
      pending succ nodes (k :: stack) seen := by
  have hpushed : ((succ k).filter (· ∉ insert k seen)).length ≤ (succ k).length :=
    List.length_filter_le _ _
  have hedges : ∑ k ∈ nodes \ insert k seen, (succ k).length + (succ k).length ≤
      ∑ k ∈ nodes \ seen, (succ k).length := by
    by_cases hmem : k ∈ nodes
    · have hsplit : nodes \ seen = insert k (nodes \ insert k seen) := by
        ext a
        by_cases ha : a = k
        · simp [ha, hmem, hk]
        · simp [ha]
      rw [hsplit, Finset.sum_insert (by simp), Nat.add_comm]
    · rw [hnodes k hmem, List.length_nil, Nat.add_zero]
      exact Finset.sum_le_sum_of_subset
        (Finset.sdiff_subset_sdiff (Finset.Subset.refl _) (Finset.subset_insert _ _))
  simp only [pending, List.length_append, List.length_reverse, List.length_cons]
  omega

/-- When only finitely many nodes have successors, the exploration ends. -/
theorem explore_ends {nodes : Finset κ} (hnodes : ∀ k ∉ nodes, succ k = []) (stack : List κ)
    (seen : Finset κ) {n : Nat} (hn : pending succ nodes stack seen < n) :
    ∃ result, explore succ n stack seen = some result := by
  induction n generalizing stack seen with
  | zero => omega
  | succ n ih =>
    cases stack with
    | nil => exact ⟨seen, rfl⟩
    | cons k stack =>
      rw [explore]
      by_cases hk : k ∈ seen
      · rw [if_pos hk]
        refine ih _ _ ?_
        simp only [pending, List.length_cons] at hn ⊢
        omega
      · rw [if_neg hk]
        exact ih _ _ (Nat.lt_of_lt_of_le (pending_visit hnodes hk) (Nat.le_of_lt_succ hn))

end Rax

import Mathlib.Data.Finset.Card
import Mathlib.Data.Set.Basic

/-!
# Rounds of a backward analysis

A backward analysis whose transfer functions remove some facts and add others, solved by
repeated sweeps over the nodes in a fixed order. A fact is found at a node when it travels
there along edges from a node that adds it. Sweep `n` finds what travels over fewer than `n`
edges, and a fact need not pass a node twice, so as many sweeps as there are nodes suffice.
-/

namespace Rax

open Function

variable {ν κ φ : Type*}

/-- A transfer function that removes the facts in `kill` and adds those in `gen`. -/
structure GenKill (φ : Type*) where
  gen : Set φ
  kill : Set φ

namespace GenKill

def apply (t : GenKill φ) (out : Set φ) : Set φ := t.gen ∪ (out \ t.kill)

def id : GenKill φ := ⟨∅, ∅⟩

/-- First `u`, then `t`. -/
def comp (t u : GenKill φ) : GenKill φ := ⟨t.gen ∪ (u.gen \ t.kill), t.kill ∪ u.kill⟩

@[simp] theorem id_apply (out : Set φ) : (id : GenKill φ).apply out = out := by
  simp [id, apply]

theorem comp_apply (t u : GenKill φ) (out : Set φ) :
    (t.comp u).apply out = t.apply (u.apply out) := by
  ext f
  simp only [comp, apply, Set.mem_union, Set.mem_sdiff]
  tauto

end GenKill

/-- Sets that only grow, each determined by the one before, inside a set of `n` elements stop
growing after `n` steps. -/
theorem stable_of_card_le {α : Type*} {A : Nat → Finset α} {bound : Finset α}
    (hbound : ∀ k, A k ⊆ bound) (hmono : ∀ k, A k ⊆ A (k + 1))
    (hstep : ∀ k, A (k + 1) = A k → A (k + 2) = A (k + 1)) :
    ∀ k, A (bound.card + k) = A bound.card := by
  have hgrow (k : Nat) : k ≤ (A k).card ∨ A (k + 1) = A k := by
    induction k with
    | zero => exact .inl (Nat.zero_le _)
    | succ k ih =>
      by_cases heq : A (k + 1) = A k
      · exact .inr (hstep k heq)
      · left
        have hk := ih.resolve_right heq
        have hlt := Finset.card_lt_card ((hmono k).ssubset_of_ne fun h => heq h.symm)
        omega
  have hstop : A (bound.card + 1) = A bound.card := by
    rcases hgrow bound.card with hle | heq
    · have hall : A bound.card = bound := Finset.eq_of_subset_of_card_le (hbound _) hle
      have hsub : A (bound.card + 1) ⊆ A bound.card := by
        rw [hall]
        exact hbound _
      exact Finset.Subset.antisymm hsub (hmono _)
    · exact heq
  have hnext (k : Nat) : A (bound.card + k + 1) = A (bound.card + k) := by
    induction k with
    | zero => exact hstop
    | succ k ih => exact hstep _ ih
  intro k
  induction k with
  | zero => rfl
  | succ k ih => exact (hnext k).trans ih

/-- A backward analysis: nodes in the order in which they are visited, the key under which
the facts of a node are kept, the keys of its successors, the facts that hold at its end
whatever the successors say, and its transfer function. -/
structure Backward (ν κ φ : Type*) where
  nodes : List ν
  key : ν → κ
  succ : ν → List κ
  base : ν → Set φ
  transfer : ν → GenKill φ

namespace Backward

variable (A : Backward ν κ φ)

/-- Facts at the end of a node. -/
def out (s : κ → Set φ) (v : ν) : Set φ := A.base v ∪ {f | ∃ k ∈ A.succ v, f ∈ s k}

/-- Facts at the start of a node. -/
def into (s : κ → Set φ) (v : ν) : Set φ := (A.transfer v).apply (A.out s v)

/-- The facts at the start of every node are what the transfer function makes of those at
its end. -/
def Solution (s : κ → Set φ) : Prop := ∀ v ∈ A.nodes, A.into s v = s (A.key v)

/-- A fact travels to the start of a node over fewer than `n` edges. -/
inductive Travels (f : φ) : Nat → ν → Prop
  | born {v : ν} {n : Nat} : f ∈ (A.transfer v).apply (A.base v) → Travels f (n + 1) v
  | edge {v w : ν} {n : Nat} : w ∈ A.nodes → A.key w ∈ A.succ v → Travels f n w →
      f ∉ (A.transfer v).kill → Travels f (n + 1) v

variable {A}

theorem Travels.succ {f : φ} {n : Nat} {v : ν} (h : A.Travels f n v) :
    A.Travels f (n + 1) v := by
  induction h with
  | born h => exact .born h
  | edge hw hkey _ hkill ih => exact .edge hw hkey ih hkill

/-- What a node finds depends on what its successors found. -/
theorem travels_succ_iff {f : φ} {n : Nat} {v : ν} :
    A.Travels f (n + 1) v ↔ f ∈ (A.transfer v).apply (A.base v) ∨
      (∃ w ∈ A.nodes, A.key w ∈ A.succ v ∧ A.Travels f n w) ∧ f ∉ (A.transfer v).kill := by
  constructor
  · intro h
    cases h with
    | born h => exact .inl h
    | edge hw hkey htravels hkill => exact .inr ⟨⟨_, hw, hkey, htravels⟩, hkill⟩
  · rintro (h | ⟨⟨w, hw, hkey, htravels⟩, hkill⟩)
    · exact .born h
    · exact .edge hw hkey htravels hkill

/-- A fact that reaches a node reaches it over fewer edges than there are nodes. -/
theorem Travels.le_length {f : φ} {n : Nat} {v : ν} (hv : v ∈ A.nodes)
    (h : A.Travels f n v) : A.Travels f A.nodes.length v := by
  classical
  let found (k : Nat) : Finset ν := A.nodes.toFinset.filter (A.Travels f k)
  have hmem {k : Nat} {w : ν} : w ∈ found k ↔ w ∈ A.nodes ∧ A.Travels f k w := by
    simp [found]
  have hmono (k : Nat) : found k ⊆ found (k + 1) := fun w hw =>
    hmem.mpr ⟨(hmem.mp hw).1, (hmem.mp hw).2.succ⟩
  have hstep (k : Nat) (heq : found (k + 1) = found k) : found (k + 2) = found (k + 1) := by
    -- The nodes found next are determined by the nodes found so far.
    refine Finset.Subset.antisymm (fun w hw => ?_) (hmono _)
    obtain ⟨hw, htravels⟩ := hmem.mp hw
    refine hmem.mpr ⟨hw, travels_succ_iff.mpr ?_⟩
    refine (travels_succ_iff.mp htravels).imp_right (And.imp_left ?_)
    rintro ⟨u, hu, hkey, htravels⟩
    exact ⟨u, hu, hkey, (hmem.mp (heq ▸ hmem.mpr ⟨hu, htravels⟩)).2⟩
  have hbound (k : Nat) : found k ⊆ A.nodes.toFinset := Finset.filter_subset _ _
  have hstable := stable_of_card_le hbound hmono hstep
  have hlater (k : Nat) : A.Travels f (n + k) v := by
    induction k with
    | zero => exact h
    | succ k ih => exact ih.succ
  have hle : A.nodes.toFinset.card ≤ A.nodes.length := List.toFinset_card_le _
  have hfound : v ∈ found (A.nodes.toFinset.card + (n + A.nodes.length)) := by
    refine hmem.mpr ⟨hv, ?_⟩
    have := hlater (A.nodes.toFinset.card + A.nodes.length)
    rwa [Nat.add_left_comm] at this
  rw [hstable, ← hstable (A.nodes.length - A.nodes.toFinset.card),
    Nat.add_sub_cancel' hle] at hfound
  exact (hmem.mp hfound).2

section Sweep

variable [DecidableEq κ]

/-- Recompute the facts of one node. -/
def visit (A : Backward ν κ φ) (s : κ → Set φ) (v : ν) : κ → Set φ :=
  update s (A.key v) (A.into s v)

/-- One round. -/
def sweep (A : Backward ν κ φ) (s : κ → Set φ) : κ → Set φ := A.nodes.foldl A.visit s

/-- Every fact travels to a node with the key that it is kept under. -/
def Sound (A : Backward ν κ φ) (s : κ → Set φ) : Prop :=
  ∀ k, ∀ f ∈ s k, ∃ v ∈ A.nodes, A.key v = k ∧ ∃ n, A.Travels f n v

/-- Facts that travel over fewer than `n` edges are found at the nodes of a list. -/
def Complete (A : Backward ν κ φ) (nodes : List ν) (n : Nat) (s : κ → Set φ) : Prop :=
  ∀ v ∈ nodes, ∀ f, A.Travels f n v → f ∈ s (A.key v)

variable {s : κ → Set φ} {v : ν} {f : φ} {n : Nat}

omit [DecidableEq κ] in
theorem mem_into_of_complete (hs : A.Complete A.nodes n s) (h : A.Travels f (n + 1) v) :
    f ∈ A.into s v := by
  rcases travels_succ_iff.mp h with hborn | ⟨⟨w, hw, hkey, htravels⟩, hkill⟩
  · exact hborn.imp_right fun hbase => ⟨.inl hbase.1, hbase.2⟩
  · exact .inr ⟨.inr ⟨_, hkey, hs w hw f htravels⟩, hkill⟩

omit [DecidableEq κ] in
theorem travels_of_mem_into (hs : A.Sound s) (h : f ∈ A.into s v) : ∃ n, A.Travels f n v := by
  rcases h with hgen | ⟨hbase | ⟨k, hk, hf⟩, hkill⟩
  · exact ⟨1, .born (.inl hgen)⟩
  · exact ⟨1, .born (.inr ⟨hbase, hkill⟩)⟩
  · obtain ⟨w, hw, rfl, n, htravels⟩ := hs k f hf
    exact ⟨n + 1, .edge hw hk htravels hkill⟩

theorem Sound.visit (hs : A.Sound s) (hv : v ∈ A.nodes) : A.Sound (A.visit s v) := by
  intro k f hf
  by_cases hk : k = A.key v
  · subst hk
    rw [Backward.visit, update_self] at hf
    exact ⟨v, hv, rfl, travels_of_mem_into hs hf⟩
  · rw [Backward.visit, update_of_ne hk] at hf
    exact hs k f hf

theorem Sound.sweep (hs : A.Sound s) : A.Sound (A.sweep s) := by
  have hfold (l : List ν) (hl : ∀ v ∈ l, v ∈ A.nodes) {s : κ → Set φ} (hs : A.Sound s) :
      A.Sound (l.foldl A.visit s) := by
    induction l generalizing s with
    | nil => exact hs
    | cons v l ih =>
      obtain ⟨hv, hl⟩ := List.forall_mem_cons.mp hl
      exact ih hl (hs.visit hv)
  exact hfold A.nodes (fun _ h => h) hs

variable (hkeys : (A.nodes.map A.key).Nodup)

include hkeys

omit [DecidableEq κ] in
theorem eq_of_key_eq {v w : ν} (hv : v ∈ A.nodes) (hw : w ∈ A.nodes)
    (h : A.key v = A.key w) : v = w :=
  List.inj_on_of_nodup_map hkeys hv hw h

/-- A visit finds the facts of its own node that are one edge further away, and loses none. -/
theorem mem_visit (hs : A.Complete A.nodes n s) (hv : v ∈ A.nodes) {w : ν} (hw : w ∈ A.nodes)
    (h : A.Travels f (n + 1) w) (hf : w ≠ v → f ∈ s (A.key w)) :
    f ∈ A.visit s v (A.key w) := by
  by_cases hkey : A.key w = A.key v
  · obtain rfl := eq_of_key_eq hkeys hw hv hkey
    rw [visit, update_self]
    exact mem_into_of_complete hs h
  · rw [visit, update_of_ne hkey]
    exact hf fun heq => hkey (congrArg A.key heq)

theorem Complete.visit (hs : A.Complete A.nodes n s) (hv : v ∈ A.nodes) :
    A.Complete A.nodes n (A.visit s v) := fun w hw f h =>
  mem_visit hkeys hs hv hw h.succ fun _ => hs w hw f h

/-- A sweep takes every fact one edge further. -/
theorem Complete.sweep (hs : A.Complete A.nodes n s) :
    A.Complete A.nodes (n + 1) (A.sweep s) := by
  have hfold (todo seen : List ν) (htodo : ∀ v ∈ todo, v ∈ A.nodes)
      (hseen : ∀ v ∈ seen, v ∈ A.nodes) {s : κ → Set φ} (hs : A.Complete A.nodes n s)
      (hahead : A.Complete seen (n + 1) s) :
      A.Complete (seen ++ todo) (n + 1) (todo.foldl A.visit s) := by
    induction todo generalizing seen s with
    | nil => simpa using hahead
    | cons v todo ih =>
      obtain ⟨hv, htodo⟩ := List.forall_mem_cons.mp htodo
      have hseen' : ∀ w ∈ seen ++ [v], w ∈ A.nodes := by
        simpa [or_imp, forall_and] using ⟨hseen, hv⟩
      have hahead' : A.Complete (seen ++ [v]) (n + 1) (A.visit s v) := by
        intro w hw f h
        refine mem_visit hkeys hs hv (hseen' w hw) h fun hne => hahead w ?_ f h
        simpa [hne] using hw
      simpa using ih (seen ++ [v]) htodo hseen' (hs.visit hkeys hv) hahead'
  exact hfold A.nodes [] (fun _ h => h) (by simp) hs (by simp [Complete])

omit [DecidableEq κ] in
/-- Facts that all travel, and all that do: a solution. -/
theorem solution_of_complete (hsound : A.Sound s)
    (hcomplete : A.Complete A.nodes A.nodes.length s) : A.Solution s := by
  intro v hv
  ext f
  constructor
  · intro hf
    obtain ⟨n, htravels⟩ := travels_of_mem_into hsound hf
    exact hcomplete v hv f (htravels.le_length hv)
  · intro hf
    obtain ⟨w, hw, hkey, n, htravels⟩ := hsound _ f hf
    obtain rfl := eq_of_key_eq hkeys hw hv hkey
    exact mem_into_of_complete hcomplete (htravels.le_length hw).succ

/-- As many sweeps as there are nodes solve the analysis. -/
theorem solution_sweep_iterate : A.Solution (A.sweep^[A.nodes.length] fun _ => ∅) := by
  have hrounds (n : Nat) : A.Sound (A.sweep^[n] fun _ => ∅) ∧
      A.Complete A.nodes n (A.sweep^[n] fun _ => ∅) := by
    induction n with
    | zero =>
      refine ⟨fun k f hf => absurd hf (Set.notMem_empty f), fun v _ f h => ?_⟩
      cases h
    | succ n ih =>
      rw [iterate_succ_apply']
      exact ⟨ih.1.sweep, ih.2.sweep hkeys⟩
  exact solution_of_complete hkeys (hrounds _).1 (hrounds _).2

end Sweep

end Backward

end Rax

import Mathlib.Data.List.Chain
import Mathlib.Data.List.Perm.Subperm
import Mathlib.Logic.Relation
import Mathlib.Order.Basic

/-!
# Cycles and paths of a relation

A cycle either meets a given set of points or avoids it, a cycle along which a measure never
falls stays on one level of it, and without cycles the length of a path is bounded by the
number of points that have a successor.
-/

namespace Rax.Graph

open Relation

variable {α β : Type*} {R : α → α → Prop}

/-- No point is on a cycle. -/
def Acyclic (R : α → α → Prop) : Prop := ∀ a, ¬ TransGen R a a

/-- A path leaves some point of `Bad` on its way, or none. -/
theorem transGen_meets_or_avoids {Bad : α → Prop} {a b : α} (h : TransGen R a b) :
    (∃ c, Bad c ∧ ReflTransGen R a c ∧ TransGen R c b) ∨
      TransGen (fun x y => R x y ∧ ¬ Bad x) a b := by
  induction h with
  | single hab =>
    by_cases hbad : Bad a
    · exact .inl ⟨a, hbad, .refl, .single hab⟩
    · exact .inr (.single ⟨hab, hbad⟩)
  | @tail b c hab hbc ih =>
    by_cases hbad : Bad b
    · exact .inl ⟨b, hbad, hab.to_reflTransGen, .single hbc⟩
    · rcases ih with ⟨x, hx, hax, hxb⟩ | havoids
      · exact .inl ⟨x, hx, hax, hxb.tail hbc⟩
      · exact .inr (havoids.tail ⟨hbc, hbad⟩)

/-- A cycle that meets `Bad` can be started there. -/
theorem cycle_meets_or_avoids {Bad : α → Prop} {a : α} (h : TransGen R a a) :
    (∃ c, Bad c ∧ TransGen R c c) ∨ TransGen (fun x y => R x y ∧ ¬ Bad x) a a := by
  rcases transGen_meets_or_avoids h with ⟨c, hc, hac, hca⟩ | havoids
  · exact .inl ⟨c, hc, hca.trans_left hac⟩
  · exact .inr havoids

section Level

variable [PartialOrder β] {f : α → β}

theorem le_of_transGen (hmono : ∀ x y, R x y → f x ≤ f y) {a b : α} (h : TransGen R a b) :
    f a ≤ f b := by
  induction h with
  | single hab => exact hmono _ _ hab
  | tail _ hbc ih => exact ih.trans (hmono _ _ hbc)

/-- A path that ends no higher than it began never left its level. -/
theorem transGen_level (hmono : ∀ x y, R x y → f x ≤ f y) {a b : α} (h : TransGen R a b)
    (hle : f b ≤ f a) : TransGen (fun x y => R x y ∧ f x = f a ∧ f y = f a) a b := by
  induction h with
  | single hab =>
    exact .single ⟨hab, rfl, le_antisymm hle (hmono _ _ hab)⟩
  | @tail b c hab hbc ih =>
    have hb : f b = f a := le_antisymm ((hmono _ _ hbc).trans hle) (le_of_transGen hmono hab)
    have hc : f c = f a := le_antisymm hle (hb ▸ hmono _ _ hbc)
    exact (ih hb.le).tail ⟨hbc, hb, hc⟩

end Level

theorem nodup_of_isChain (h : Acyclic R) {path : List α} (hpath : path.IsChain R) :
    path.Nodup := by
  have htrans : path.IsChain (TransGen R) := hpath.imp fun _ _ => .single
  refine (List.isChain_iff_pairwise.mp htrans).imp ?_
  rintro a b hab rfl
  exact h a hab

theorem mem_of_mem_dropLast {nodes : List α} (hnodes : ∀ a b, R a b → a ∈ nodes)
    {path : List α} (hpath : path.IsChain R) : ∀ a ∈ path.dropLast, a ∈ nodes := by
  induction path with
  | nil => simp
  | cons x rest ih =>
    cases rest with
    | nil => simp
    | cons y rest =>
      obtain ⟨hxy, hrest⟩ := List.isChain_cons_cons.mp hpath
      intro a ha
      rcases List.mem_cons.mp ha with rfl | ha
      · exact hnodes _ y hxy
      · exact ih hrest a ha

theorem length_le_of_isChain (h : Acyclic R) {nodes : List α}
    (hnodes : ∀ a b, R a b → a ∈ nodes) {path : List α} (hpath : path.IsChain R) :
    path.length ≤ nodes.length + 1 := by
  have hnodup : path.dropLast.Nodup :=
    (nodup_of_isChain h hpath).sublist (List.dropLast_sublist path)
  have hle := (List.subperm_of_subset hnodup (mem_of_mem_dropLast hnodes hpath)).length_le
  rw [List.length_dropLast] at hle
  omega

end Rax.Graph

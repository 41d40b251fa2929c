import Mathlib.Data.List.Nodup
import Mathlib.Data.List.Range

/-!
# Numbering keys

A table that gives every key a number when it is first asked for. The numbers are counted modulo
a size, as in a machine word, so that they tell keys apart only as long as the counter has not
come round.
-/

namespace Rax

/-- The keys numbered so far, and the number that comes next. -/
structure IdTable (κ : Type*) where
  entries : List (κ × Nat) := []
  next : Nat := 0

namespace IdTable

variable {κ : Type*} [DecidableEq κ]

/-- The number of a key, a new one if it has none. -/
def intern (size : Nat) (t : IdTable κ) (k : κ) : Nat × IdTable κ :=
  match t.entries.find? fun entry => entry.1 == k with
  | some entry => (entry.2, t)
  | none => (t.next, { entries := t.entries ++ [(k, t.next)], next := (t.next + 1) % size })

variable {size : Nat} {t : IdTable κ} {k l : κ} {i j : Nat}

theorem entries_prefix_intern (size : Nat) (t : IdTable κ) (k : κ) :
    t.entries <+: (t.intern size k).2.entries := by
  rw [intern]
  cases t.entries.find? fun entry => entry.1 == k with
  | some entry => exact List.prefix_refl _
  | none => exact List.prefix_append _ _

theorem mem_intern (size : Nat) (t : IdTable κ) (k : κ) :
    (k, (t.intern size k).1) ∈ (t.intern size k).2.entries := by
  rw [intern]
  cases hfind : t.entries.find? fun entry => entry.1 == k with
  | some entry =>
    have hk : entry.1 = k := by simpa using List.find?_some hfind
    exact hk ▸ List.mem_of_find?_eq_some hfind
  | none => exact List.mem_append_right _ (List.mem_singleton_self _)

/-- The keys are distinct and have been numbered in order. -/
structure Numbered (size : Nat) (t : IdTable κ) : Prop where
  keys : (t.entries.map Prod.fst).Nodup
  ids : t.entries.map Prod.snd = (List.range t.entries.length).map (· % size)
  next : t.next = t.entries.length % size

omit [DecidableEq κ] in
theorem numbered_empty (size : Nat) : Numbered size ({} : IdTable κ) :=
  ⟨List.nodup_nil, rfl, (Nat.zero_mod size).symm⟩

theorem Numbered.intern (h : t.Numbered size) (k : κ) : (t.intern size k).2.Numbered size := by
  rw [IdTable.intern]
  cases hfind : t.entries.find? fun entry => entry.1 == k with
  | some entry => exact h
  | none =>
    have hfresh : k ∉ t.entries.map Prod.fst := by
      intro hmem
      obtain ⟨entry, hentry, hk⟩ := List.mem_map.mp hmem
      exact List.find?_eq_none.mp hfind entry hentry (by simpa using hk)
    constructor
    · rw [List.map_append, List.nodup_append]
      refine ⟨h.keys, List.nodup_singleton _, ?_⟩
      intro a ha b hb hab
      obtain rfl : b = k := by simpa using hb
      exact hfresh (hab ▸ ha)
    · simp only [List.map_append, h.ids, h.next, List.length_append, List.length_singleton,
        List.range_succ, List.map_cons, List.map_nil]
    · simp only [h.next, List.length_append, List.length_singleton, Nat.mod_add_mod]

omit [DecidableEq κ] in
/-- A key has one number. -/
theorem Numbered.id_unique (h : t.Numbered size) (hi : (k, i) ∈ t.entries)
    (hj : (k, j) ∈ t.entries) : i = j :=
  congrArg Prod.snd (List.inj_on_of_nodup_map h.keys hi hj rfl)

omit [DecidableEq κ] in
/-- A number stands for one key, as long as the counter has not come round. -/
theorem Numbered.key_unique (h : t.Numbered size) (hsize : t.entries.length ≤ size)
    (hk : (k, i) ∈ t.entries) (hl : (l, i) ∈ t.entries) : k = l := by
  have hnodup : (t.entries.map Prod.snd).Nodup := by
    have hids : (List.range t.entries.length).map (· % size) = List.range t.entries.length := by
      refine (List.map_congr_left fun n hn => ?_).trans (List.map_id _)
      exact Nat.mod_eq_of_lt (Nat.lt_of_lt_of_le (List.mem_range.mp hn) hsize)
    rw [h.ids, hids]
    exact List.nodup_range
  exact congrArg Prod.fst (List.inj_on_of_nodup_map hnodup hk hl rfl)

theorem Numbered.intern_of_mem (h : t.Numbered size) (hk : (k, i) ∈ t.entries) :
    t.intern size k = (i, t) := by
  rw [IdTable.intern]
  cases hfind : t.entries.find? fun entry => entry.1 == k with
  | none => exact absurd (List.find?_eq_none.mp hfind _ hk) (by simp)
  | some entry =>
    have hkey : entry.1 = k := by simpa using List.find?_some hfind
    have hmem : (k, entry.2) ∈ t.entries := hkey ▸ List.mem_of_find?_eq_some hfind
    exact congrArg (·, t) (h.id_unique hmem hk)

theorem intern_of_fresh (size : Nat) (hk : k ∉ t.entries.map Prod.fst) :
    t.intern size k =
      (t.next, { entries := t.entries ++ [(k, t.next)], next := (t.next + 1) % size }) := by
  rw [IdTable.intern]
  cases hfind : t.entries.find? fun entry => entry.1 == k with
  | none => rfl
  | some entry =>
    have hkey : entry.1 = k := by simpa using List.find?_some hfind
    exact absurd (hkey ▸ List.mem_map_of_mem (List.mem_of_find?_eq_some hfind)) hk

end IdTable

end Rax

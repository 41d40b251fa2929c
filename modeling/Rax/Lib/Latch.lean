import Mathlib.Data.List.Basic
import Mathlib.Logic.Function.Basic

/-!
# A latch fed by queues

Items of several streams share one place from which they are taken. An item is accepted into the
queue of its stream, or straight into the latch; a queue's first item is promoted when the latch is
empty. What was accepted and what was taken is recorded with its stream.

Of every stream, what was accepted is what was taken, then what the latch holds, then what is
queued, in this order: as long as nothing is put into a full latch.
-/

namespace Rax

variable {ι β : Type} [DecidableEq ι]

/-- The items of one stream, in order. -/
def ofStream (i : ι) (items : List (ι × β)) : List β :=
  items.filterMap fun item => if item.1 = i then some item.2 else none

@[simp] theorem ofStream_nil (i : ι) : ofStream i ([] : List (ι × β)) = [] := rfl

@[simp] theorem ofStream_append (i : ι) (xs ys : List (ι × β)) :
    ofStream i (xs ++ ys) = ofStream i xs ++ ofStream i ys :=
  List.filterMap_append

@[simp] theorem ofStream_singleton (i j : ι) (x : β) :
    ofStream i [(j, x)] = if j = i then [x] else [] := by
  by_cases h : j = i <;> simp [ofStream, h]

structure Latch (ι β : Type) where
  latch : Option (ι × β) := none
  queues : ι → List β := fun _ => []
  accepted : List (ι × β) := []
  taken : List (ι × β) := []

namespace Latch

def enqueue (m : Latch ι β) (i : ι) (x : β) : Latch ι β :=
  { m with queues := Function.update m.queues i (m.queues i ++ [x])
           accepted := m.accepted ++ [(i, x)] }

/-- Move the first item of a queue into the latch, if both are there. -/
def promote (m : Latch ι β) (i : ι) : Latch ι β :=
  match m.latch, m.queues i with
  | none, x :: rest =>
    { m with latch := some (i, x), queues := Function.update m.queues i rest }
  | _, _ => m

/-- Accept an item straight into the latch. -/
def put (m : Latch ι β) (i : ι) (x : β) : Latch ι β :=
  { m with latch := some (i, x), accepted := m.accepted ++ [(i, x)] }

def take (m : Latch ι β) : Latch ι β :=
  { m with latch := none, taken := m.taken ++ m.latch.toList }

/-- What a stream has in the latch and in its queue. -/
def held (m : Latch ι β) (i : ι) : List β := ofStream i m.latch.toList ++ m.queues i

/-- Nothing is lost, doubled or reordered. -/
def Conserves (m : Latch ι β) : Prop :=
  ∀ i, ofStream i m.accepted = ofStream i m.taken ++ m.held i

variable {m : Latch ι β}

theorem conserves_new : ({} : Latch ι β).Conserves := fun _ => rfl

theorem Conserves.enqueue (h : m.Conserves) (i : ι) (x : β) : (m.enqueue i x).Conserves := by
  intro j
  have hj := h j
  by_cases hij : i = j
  · subst hij
    simp_all [Latch.enqueue, held]
  · simp_all [Latch.enqueue, held, Function.update_of_ne (Ne.symm hij)]

theorem held_promote (m : Latch ι β) (i j : ι) : (m.promote i).held j = m.held j := by
  unfold promote held
  split
  next x rest hlatch hqueue =>
    by_cases hij : i = j
    · subst hij
      simp [hlatch, hqueue]
    · simp [hlatch, hij, Function.update_of_ne (Ne.symm hij)]
  next => rfl

theorem promote_log (m : Latch ι β) (i : ι) :
    (m.promote i).accepted = m.accepted ∧ (m.promote i).taken = m.taken := by
  unfold promote
  split <;> exact ⟨rfl, rfl⟩

theorem Conserves.promote (h : m.Conserves) (i : ι) : (m.promote i).Conserves := by
  intro j
  rw [held_promote, (promote_log m i).1, (promote_log m i).2]
  exact h j

/-- Nothing is lost when the latch is empty, and the order is kept when nothing is queued. -/
theorem Conserves.put (h : m.Conserves) (hlatch : m.latch = none) {i : ι} (hqueue : m.queues i = [])
    (x : β) : (m.put i x).Conserves := by
  intro j
  have hj := h j
  by_cases hij : i = j
  · subst hij
    simp_all [Latch.put, held]
  · simp_all [Latch.put, held]

theorem Conserves.take (h : m.Conserves) : m.take.Conserves := by
  intro j
  rw [Latch.take, ofStream_append]
  have hj := h j
  simp_all [held]

end Latch

end Rax

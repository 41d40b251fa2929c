import Mathlib.Tactic.Common

/-!
# Framing a stream

A stream of pieces is cut after each piece that ends a frame. A receiver that works through the
stream piece by piece keeps the open frame in an accumulator; what it has closed, and what it has
open, are those of the cut stream.
-/

universe u v

namespace Rax

variable {α : Type u} {β : Type v}

/-- The frames of a stream, and the pieces after the last one. -/
def framesOf (ends : α → Bool) : List α → List (List α) × List α
  | [] => ([], [])
  | x :: xs =>
    if ends x then ([x] :: (framesOf ends xs).1, (framesOf ends xs).2)
    else
      match framesOf ends xs with
      | ([], tail) => ([], x :: tail)
      | (frame :: frames, tail) => ((x :: frame) :: frames, tail)

/-- Frames consist of pieces of the stream. -/
theorem mem_of_mem_framesOf {ends : α → Bool} {xs frame : List α} {x : α}
    (hframe : frame ∈ (framesOf ends xs).1) (hx : x ∈ frame) : x ∈ xs := by
  have hall : ∀ ys : List α, (∀ f ∈ (framesOf ends ys).1, ∀ y ∈ f, y ∈ ys) ∧
      ∀ y ∈ (framesOf ends ys).2, y ∈ ys := by
    intro ys
    induction ys with
    | nil => simp [framesOf]
    | cons y ys ih =>
      rw [framesOf]
      split
      · simp only [List.mem_cons]
        grind
      · rcases h : framesOf ends ys with ⟨_ | ⟨f, fs⟩, tail⟩ <;> grind
  exact (hall xs).1 frame hframe x hx

/-- A receiver of pieces: what is closed, and what is open. -/
structure Receiver (β : Type v) where
  closed : List β
  acc : β

namespace Receiver

/-- Take a piece, and close the frame if it ends there. -/
def take (ends : α → Bool) (add : β → α → β) (empty : β) (r : Receiver β) (x : α) : Receiver β :=
  if ends x then ⟨r.closed ++ [add r.acc x], empty⟩ else ⟨r.closed, add r.acc x⟩

variable (ends : α → Bool) (add : β → α → β) (empty : β)

theorem take_of_ends {r : Receiver β} {x : α} (h : ends x = true) :
    r.take ends add empty x = ⟨r.closed ++ [add r.acc x], empty⟩ := if_pos h

theorem take_of_not_ends {r : Receiver β} {x : α} (h : ends x = false) :
    r.take ends add empty x = ⟨r.closed, add r.acc x⟩ := if_neg (by simp [h])

/-- With pieces already in the open frame: they go to the first frame that is closed. -/
theorem foldl_take_open (xs : List α) (closed : List β) (acc : β) :
    xs.foldl (take ends add empty) ⟨closed, acc⟩ =
      match framesOf ends xs with
      | ([], tail) => ⟨closed, tail.foldl add acc⟩
      | (frame :: frames, tail) =>
        ⟨closed ++ frame.foldl add acc :: frames.map (List.foldl add empty),
          tail.foldl add empty⟩ := by
  induction xs generalizing closed acc with
  | nil => rfl
  | cons x xs ih =>
    rw [List.foldl_cons, framesOf]
    cases hx : ends x with
    | true =>
      rw [take_of_ends ends add empty hx, ih]
      rcases h : framesOf ends xs with ⟨_ | ⟨frame, frames⟩, tail⟩ <;> simp
    | false =>
      rw [take_of_not_ends ends add empty hx, ih]
      rcases h : framesOf ends xs with ⟨_ | ⟨frame, frames⟩, tail⟩ <;> simp

/-- Piece by piece, the receiver closes the frames of the stream. -/
theorem foldl_take (xs : List α) :
    xs.foldl (take ends add empty) ⟨[], empty⟩ =
      ⟨(framesOf ends xs).1.map (List.foldl add empty),
        (framesOf ends xs).2.foldl add empty⟩ := by
  rw [foldl_take_open]
  rcases framesOf ends xs with ⟨_ | ⟨frame, frames⟩, tail⟩ <;> rfl

end Receiver

end Rax

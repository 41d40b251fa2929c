import Rax.Lib.Exec

/-!
# Fallible commands

Commands change a state and return a value or fail; a failed command keeps the changes made
before the failure. A command mirrors another along a map of states if both succeed or fail
alike and their states stay related by the map, and keeps a view of the state if it leaves it alone
either way. The rules follow the way commands are built.
-/

namespace Rax

variable {ε σ τ : Type} {α β : Type}

/-- A command that may fail. -/
abbrev Command (ε σ α : Type) := EStateM ε σ α

namespace Command

/-- How a command ends, as a step of a run. -/
def outcome (x : Command ε σ Unit) (s : σ) : Outcome σ ε :=
  match x s with
  | .ok _ s' => .next s'
  | .error e s' => .exit e s'

/-- Change the state that a command ended in. -/
def mapState (f : σ → τ) : EStateM.Result ε σ α → EStateM.Result ε τ α
  | .ok a s => .ok a (f s)
  | .error e s => .error e (f s)

/-- From the image of `s`, `y` does what `x` does from `s`. -/
def Mirrors (f : σ → τ) (y : Command ε τ α) (x : Command ε σ α) (s : σ) : Prop :=
  y (f s) = mapState f (x s)

variable {x : Command ε σ α} {k : α → Command ε σ β}

namespace Mirrors

variable {f : σ → τ} {s : σ}

theorem pure (a : α) : Mirrors f (Pure.pure a : Command ε τ α) (Pure.pure a) s := rfl

theorem bind {y : Command ε τ α} {l : α → Command ε τ β} (h : Mirrors f y x s)
    (hk : ∀ a s', x s = .ok a s' → Mirrors f (l a) (k a) s') :
    Mirrors f (y >>= l) (x >>= k) s := by
  unfold Mirrors at h ⊢
  show EStateM.bind y l (f s) = mapState f (EStateM.bind x k s)
  unfold EStateM.bind
  rw [h]
  cases hx : x s with
  | ok a s' => exact hk a s' hx
  | error e s' => rfl

theorem update {g : σ → σ} {g' : τ → τ} (h : g' (f s) = f (g s)) :
    Mirrors f (modify g' : Command ε τ Unit) (modify g) s :=
  congrArg (EStateM.Result.ok ()) h

theorem outcome {x : Command ε σ Unit} {y : Command ε τ Unit} (h : Mirrors f y x s) :
    y.outcome (f s) = (x.outcome s).map f := by
  unfold Command.outcome
  rw [show y (f s) = mapState f (x s) from h]
  cases x s <;> rfl

end Mirrors

/-! ## What a run leaves alone -/

/-- The state a command ends in, whether it succeeds or fails. -/
def endState : EStateM.Result ε σ α → σ
  | .ok _ s => s
  | .error _ s => s

/-- Whatever happens, the view `f` of the state is as before. -/
def Keeps (f : σ → τ) (x : Command ε σ α) : Prop := ∀ s, f (endState (x s)) = f s

namespace Keeps

variable {f : σ → τ}

theorem pure (a : α) : Keeps f (Pure.pure a : Command ε σ α) := fun _ => rfl

theorem get : Keeps f (MonadState.get : Command ε σ σ) := fun _ => rfl

theorem modify {g : σ → σ} (h : ∀ s, f (g s) = f s) :
    Keeps f (modifyGet fun s => ((), g s) : Command ε σ Unit) := h

theorem bind (hx : Keeps f x) (hk : ∀ a, Keeps f (k a)) : Keeps f (x >>= k) := by
  intro s
  have hs := hx s
  show f (endState (EStateM.bind x k s)) = f s
  unfold EStateM.bind
  cases h : x s with
  | ok a s' =>
    rw [h] at hs
    exact (hk a s').trans hs
  | error e s' =>
    rw [h] at hs
    exact hs

end Keeps

/-- On success the view `f` has changed by `t`, on failure it has not changed. -/
def Updates (f : σ → τ) (t : τ → τ) (x : Command ε σ α) : Prop :=
  ∀ s, (∃ a s', x s = .ok a s' ∧ f s' = t (f s)) ∨ ∃ e s', x s = .error e s' ∧ f s' = f s

namespace Updates

variable {f : σ → τ} {t : τ → τ}

theorem modify {g : σ → σ} (h : ∀ s, f (g s) = t (f s)) :
    Updates f t (modify g : Command ε σ Unit) := fun s => .inl ⟨(), g s, rfl, h s⟩

/-- The change is made after commands that keep the view. -/
theorem bind (hx : Keeps f x) (hk : ∀ a, Updates f t (k a)) : Updates f t (x >>= k) := by
  intro s
  have hs := hx s
  show (∃ a s', EStateM.bind x k s = .ok a s' ∧ _) ∨ ∃ e s', EStateM.bind x k s = .error e s' ∧ _
  unfold EStateM.bind
  cases h : x s with
  | ok a s₁ =>
    rw [h] at hs
    have hs₁ : f s₁ = f s := hs
    rw [← hs₁]
    exact hk a s₁
  | error e s₁ =>
    rw [h] at hs
    exact .inr ⟨e, s₁, rfl, hs⟩

end Updates

theorem bind_ok_iff {s s' : σ} {b : β} :
    (x >>= k) s = .ok b s' ↔ ∃ a s₁, x s = .ok a s₁ ∧ k a s₁ = .ok b s' := by
  show EStateM.bind x k s = .ok b s' ↔ _
  unfold EStateM.bind
  cases h : x s with
  | ok a s₁ => simp
  | error e s₁ => simp

theorem bind_of_ok {s s₁ : σ} {a : α} (h : x s = .ok a s₁) (k : α → Command ε σ β) :
    (x >>= k) s = k a s₁ := by
  show EStateM.bind x k s = k a s₁
  unfold EStateM.bind
  rw [h]

theorem bind_get (k : σ → Command ε σ β) (s : σ) :
    ((MonadState.get : Command ε σ σ) >>= k) s = k s s := rfl

/-- The state that a command ends in if it succeeds. -/
def run? (x : Command ε σ α) (s : σ) : Option σ :=
  match x s with
  | .ok _ s' => some s'
  | .error _ _ => none

theorem exists_ok_of_run? {s : σ} (h : (x.run? s).isSome = true) :
    ∃ a s', x s = .ok a s' := by
  unfold run? at h
  split at h
  · rename_i a s' hx
    exact ⟨a, s', hx⟩
  · cases h

end Command

end Rax

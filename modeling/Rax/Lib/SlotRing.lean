import Mathlib.Tactic.Common

/-!
# Rings of slots

A producer fills the slots of a ring in turn and flips a phase each time round; a consumer says by
its head how far it has read. The slots that are filled and not yet read are kept apart from the two
indices, because equal indices do not tell a full ring from an empty one.
-/

namespace Rax

/-- How many slots on from `a` it is to `b`, in a ring of `n`. -/
def slotsTo (n a b : Nat) : Nat := (b + n - a) % n

theorem slotsTo_eq {n a b : Nat} (ha : a < n) (hb : b < n) :
    slotsTo n a b = if a ≤ b then b - a else b + n - a := by
  rw [slotsTo]
  split
  · rw [show b + n - a = b - a + n by omega, Nat.add_mod_right, Nat.mod_eq_of_lt (by omega)]
  · exact Nat.mod_eq_of_lt (by omega)

theorem slotsTo_self {n a : Nat} (ha : a < n) : slotsTo n a a = 0 := by
  rw [slotsTo_eq ha ha]
  simp

/-- The slot after `b`, seen from `a`: one further, unless `a` itself is reached. -/
theorem slotsTo_next {n a b : Nat} (ha : a < n) (hb : b < n) (hne : (b + 1) % n ≠ a) :
    slotsTo n a ((b + 1) % n) = slotsTo n a b + 1 := by
  have hnext := Nat.mod_lt (b + 1) (Nat.zero_lt_of_lt ha)
  rw [slotsTo_eq ha hnext, slotsTo_eq ha hb]
  rcases Nat.lt_or_ge (b + 1) n with h | h
  · rw [Nat.mod_eq_of_lt h] at hne ⊢
    split <;> split <;> omega
  · have hzero : (b + 1) % n = 0 := by rw [show b + 1 = n by omega, Nat.mod_self]
    rw [hzero] at hne ⊢
    split <;> split <;> omega

theorem slotsTo_of_next {n a b : Nat} (ha : a < n) (hb : b < n) (hne : a ≠ b) :
    slotsTo n a b = slotsTo n ((a + 1) % n) b + 1 := by
  have hnext := Nat.mod_lt (a + 1) (Nat.zero_lt_of_lt ha)
  rw [slotsTo_eq ha hb, slotsTo_eq hnext hb]
  rcases Nat.lt_or_ge (a + 1) n with h | h
  · rw [Nat.mod_eq_of_lt h]
    split <;> split <;> omega
  · have hzero : (a + 1) % n = 0 := by rw [show a + 1 = n by omega, Nat.mod_self]
    rw [hzero]
    split <;> split <;> omega

/-- A ring as producer and consumer see it: how many slots were ever filled, where the consumer
is, and which slots it has not read. -/
structure SlotRing where
  size : Nat
  head : Nat := 0
  filled : Nat := 0
  held : List Nat := []

namespace SlotRing

variable {r : SlotRing}

/-- The slot that is filled next. -/
def slot (r : SlotRing) : Nat := r.filled % r.size

/-- Whether the pass that fills it is an even one. -/
def evenPass (r : SlotRing) : Bool := r.filled / r.size % 2 == 0

def fill (r : SlotRing) : SlotRing :=
  { r with filled := r.filled + 1, held := r.held ++ [r.slot] }

/-- The consumer has read everything before `head`. -/
def read (r : SlotRing) (head : Nat) : SlotRing :=
  { r with
    head
    held := r.held.filter fun x => slotsTo r.size r.head head ≤ slotsTo r.size r.head x }

/-- The unread slots lie between the consumer and the producer. -/
structure Windowed (r : SlotRing) : Prop where
  head_lt : r.head < r.size
  between : ∀ x ∈ r.held, x < r.size ∧ slotsTo r.size r.head x < slotsTo r.size r.head r.slot

theorem Windowed.slot_lt (h : r.Windowed) : r.slot < r.size :=
  Nat.mod_lt _ (Nat.zero_lt_of_lt h.head_lt)

theorem windowed_of_empty (hhead : r.head < r.size) (h : r.held = []) :
    r.Windowed where
  head_lt := hhead
  between := by simp [h]

@[simp] theorem size_fill : r.fill.size = r.size := rfl

@[simp] theorem head_fill : r.fill.head = r.head := rfl

theorem slot_fill : r.fill.slot = (r.slot + 1) % r.size := (Nat.mod_add_mod _ _ _).symm

/-- The pass changes when the first slot is next. -/
theorem evenPass_fill (hsize : 0 < r.size) :
    r.fill.evenPass = if (r.slot + 1) % r.size = 0 then !r.evenPass else r.evenPass := by
  have hslot : r.slot < r.size := Nat.mod_lt _ hsize
  have hdiv : r.filled = r.size * (r.filled / r.size) + r.slot := (Nat.div_add_mod _ _).symm
  simp only [evenPass, fill]
  by_cases hlast : r.slot + 1 = r.size
  · have hnext : (r.filled + 1) / r.size = r.filled / r.size + 1 := by
      rw [show r.filled + 1 = r.size * (r.filled / r.size + 1) by rw [Nat.mul_succ]; omega,
        Nat.mul_div_cancel_left _ hsize]
    rw [if_pos (by rw [hlast, Nat.mod_self]), hnext]
    rcases Nat.mod_two_eq_zero_or_one (r.filled / r.size) with h | h
    · simp [h, show (r.filled / r.size + 1) % 2 = 1 by omega]
    · simp [h, show (r.filled / r.size + 1) % 2 = 0 by omega]
  · have hsame : (r.filled + 1) / r.size = r.filled / r.size := by
      rw [show r.filled + 1 = r.slot + 1 + r.size * (r.filled / r.size) by omega,
        Nat.add_mul_div_left _ _ hsize, Nat.div_eq_of_lt (by omega), Nat.zero_add]
    rw [if_neg (by rw [Nat.mod_eq_of_lt (by omega)]; omega), hsame]

/-- One slot is kept free, so that a full ring is told from an empty one. -/
theorem Windowed.fill (h : r.Windowed) (hfree : (r.slot + 1) % r.size ≠ r.head) :
    r.fill.Windowed where
  head_lt := h.head_lt
  between := by
    have hnext := slotsTo_next h.head_lt h.slot_lt hfree
    intro x hx
    simp only [size_fill, head_fill, slot_fill, hnext]
    rcases List.mem_append.mp hx with hx | hx
    · have hb := h.between x hx
      exact ⟨hb.1, Nat.lt_succ_of_lt hb.2⟩
    · obtain rfl := List.mem_singleton.mp hx
      exact ⟨h.slot_lt, Nat.lt_succ_self _⟩

/-- Whatever value the consumer gives as its head. -/
theorem Windowed.read (h : r.Windowed) {head : Nat} (hhead : head < r.size) :
    (r.read head).Windowed where
  head_lt := hhead
  between := by
    intro x hx
    obtain ⟨hmem, hfar⟩ := List.mem_filter.mp hx
    have hb := h.between x hmem
    have hfar := of_decide_eq_true hfar
    have hslot := h.slot_lt
    have hlt := h.head_lt
    refine ⟨hb.1, ?_⟩
    change slotsTo r.size head x < slotsTo r.size head r.slot
    rw [slotsTo_eq hlt hb.1, slotsTo_eq hlt hslot] at hb
    rw [slotsTo_eq hlt hhead, slotsTo_eq hlt hb.1] at hfar
    rw [slotsTo_eq hhead hb.1, slotsTo_eq hhead hslot]
    have hnear := hb.2
    split_ifs at hnear hfar ⊢ <;> omega

/-- How many slots may be filled before the consumer moves. -/
def room (r : SlotRing) : Nat := slotsTo r.size ((r.slot + 1) % r.size) r.head

/-- With room, the next slot is not the consumer's, and filling takes one. -/
theorem Windowed.room_pos (h : r.Windowed) (hroom : 0 < r.room) :
    (r.slot + 1) % r.size ≠ r.head ∧ r.room = r.fill.room + 1 := by
  have hnext : (r.slot + 1) % r.size < r.size := Nat.mod_lt _ (Nat.zero_lt_of_lt h.head_lt)
  have hne : (r.slot + 1) % r.size ≠ r.head := by
    intro heq
    rw [room, heq, slotsTo_self h.head_lt] at hroom
    exact Nat.lt_irrefl 0 hroom
  refine ⟨hne, ?_⟩
  rw [room, slotsTo_of_next hnext h.head_lt hne, room, slot_fill, size_fill, head_fill]

end SlotRing

end Rax

import Rax.X86.Memory

/-!
# Slices of guest memory

Reads and writes of mapped ranges: what a write leaves at each address, and that it does not
disturb bytes outside of it.
-/

namespace Rax.X86.GuestMemory

variable {m : GuestMemory} {a b p q x : Word} {n k d : Nat} {bs cs : List Byte}

/-- All of `n` bytes from `a` on are mapped. -/
def Mapped (m : GuestMemory) (a : Word) (n : Nat) : Prop :=
  ∀ i < n, (m.byteAt (a + BitVec.ofNat 64 i)).isSome

instance : Decidable (m.Mapped a n) := inferInstanceAs (Decidable (∀ i < n, _))

/-- The bytes of a mapped range. -/
def bytesAt (m : GuestMemory) (a : Word) (n : Nat) : List Byte :=
  (List.range n).map fun i => (m.byteAt (a + BitVec.ofNat 64 i)).getD 0

/-- The memory after a write. -/
def put (m : GuestMemory) (a : Word) (bs : List Byte) : GuestMemory := (m.writeSlice a bs).2

theorem addr_add (a : Word) (i j : Nat) :
    a + BitVec.ofNat 64 i + BitVec.ofNat 64 j = a + BitVec.ofNat 64 (i + j) := by
  rw [BitVec.ofNat_add, BitVec.add_assoc]

theorem addr_succ (a : Word) (i : Nat) :
    a + 1 + BitVec.ofNat 64 i = a + BitVec.ofNat 64 (i + 1) := by
  rw [Nat.add_comm i 1]
  exact addr_add a 1 i

theorem Mapped.tail (h : m.Mapped a (n + 1)) : m.Mapped (a + 1) n := by
  intro i hi
  rw [addr_succ]
  exact h (i + 1) (by omega)

theorem bytesAt_succ : m.bytesAt a (n + 1) = (m.byteAt a).getD 0 :: m.bytesAt (a + 1) n := by
  simp only [bytesAt, List.range_succ_eq_map, List.map_cons, List.map_map]
  refine List.cons_eq_cons.mpr ⟨by simp, List.map_congr_left fun i _ => ?_⟩
  rw [Function.comp_apply, addr_succ]

theorem readSlice_of_mapped (h : m.Mapped a n) : m.readSlice a n = some (m.bytesAt a n) := by
  induction n generalizing a with
  | zero => rfl
  | succ n ih =>
    obtain ⟨b, hb⟩ := Option.isSome_iff_exists.mp (by simpa using h 0 (by omega))
    rw [readSlice, hb, ih h.tail, bytesAt_succ, hb]
    rfl

@[simp] theorem isSome_byteAt_store (v : Byte) :
    ((m.store a v).byteAt x).isSome = (m.byteAt x).isSome := by
  unfold store
  by_cases hx : x = a
  · subst hx
    simp
  · simp [hx]

theorem mapped_store (v : Byte) : (m.store b v).Mapped a n ↔ m.Mapped a n := by
  simp only [Mapped, isSome_byteAt_store]

theorem writeSlice_of_mapped (h : m.Mapped a bs.length) :
    m.writeSlice a bs = (true, m.put a bs) := by
  induction bs generalizing m a with
  | nil => rfl
  | cons v bs ih =>
    have hhead : (m.byteAt a).isSome := by simpa using h 0 (by simp)
    have htail : (m.store a v).Mapped (a + 1) bs.length := (mapped_store v).mpr (Mapped.tail h)
    rw [put, writeSlice, if_pos hhead, ih htail]

end Rax.X86.GuestMemory

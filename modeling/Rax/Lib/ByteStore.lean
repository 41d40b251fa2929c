import Rax.Lib.FlatMem

/-!
# Stores of bytes

Memory that is read and written by runs of bytes, where an access may fail. A program that is
generic in its store can be run on one that records the accepted writes; flat memory after the
run is the replay of that record.
-/

namespace Rax

class ByteStore (μ : Type) where
  read : μ → Word → Nat → Option (List Byte)
  /-- The store after a write, and whether the write took place. -/
  write : μ → Word → List Byte → μ × Bool

/-- A store where an access fails when it is out of bounds and only then, with bounds that no write
moves. -/
class BoundedStore (μ : Type) extends ByteStore μ where
  inBounds : μ → Word → Nat → Bool
  read_isSome (m : μ) (a : Word) (n : Nat) : (read m a n).isSome = inBounds m a n
  length_of_read {m : μ} {a : Word} {n : Nat} {bs : List Byte} (h : read m a n = some bs) :
    bs.length = n
  write_accepted (m : μ) (a : Word) (bs : List Byte) :
    (write m a bs).2 = inBounds m a bs.length
  inBounds_write (m : μ) (a : Word) (bs : List Byte) :
    inBounds (write m a bs).1 = inBounds m

/-- Bytes written from an address on. -/
structure ByteWrite where
  addr : Word
  bytes : List Byte
deriving DecidableEq

namespace FlatMem

variable {m m' : FlatMem} {i j k n x : Nat} {bs : List Byte}

/-- The bytes of `n` addresses. -/
def bytes (m : FlatMem) (i n : Nat) : List Byte := (List.range n).map fun k => m.byte (i + k)

/-- Replace the bytes from an address on. -/
def putBytes (m : FlatMem) (i : Nat) (bs : List Byte) : FlatMem :=
  { m with byte := fun x => if i ≤ x ∧ x < i + bs.length then bs.getD (x - i) 0 else m.byte x }

/-- All writes, in order. -/
def replay (m : FlatMem) (ws : List ByteWrite) : FlatMem :=
  ws.foldl (fun m w => m.putBytes w.addr.toNat w.bytes) m

instance : ByteStore FlatMem where
  read m a n := if m.Fits a n then some (m.bytes a.toNat n) else none
  write m a bs := if m.Fits a bs.length then (m.putBytes a.toNat bs, true) else (m, false)

instance : BoundedStore FlatMem where
  inBounds m a n := m.Fits a n
  read_isSome m a n := by
    by_cases h : m.Fits a n <;> simp [ByteStore.read, h]
  length_of_read {m a n bs} h := by
    by_cases hfits : m.Fits a n
    · obtain rfl : m.bytes a.toNat n = bs := by simpa [ByteStore.read, hfits] using h
      simp [bytes]
    · simp [ByteStore.read, hfits] at h
  write_accepted m a bs := by
    by_cases h : m.Fits a bs.length <;> simp [ByteStore.write, h]
  inBounds_write m a bs := by
    have hsize : (ByteStore.write m a bs).1.size = m.size := by
      by_cases h : m.Fits a bs.length <;> simp [ByteStore.write, h, putBytes]
    funext b n
    exact decide_eq_decide.mpr (by rw [Fits, Fits, hsize])

@[simp] theorem length_bytes : (m.bytes i n).length = n := by simp [bytes]

theorem bytes_add : m.bytes i (n + k) = m.bytes i n ++ m.bytes (i + n) k := by
  rw [bytes, List.range_add, List.map_append, List.map_map]
  simp only [bytes, Function.comp_def, Nat.add_assoc]

theorem bytes_congr (h : SameAt m m' i n) : m.bytes i n = m'.bytes i n := by
  refine List.map_congr_left fun k hk => ?_
  have hlt := List.mem_range.mp hk
  exact h _ (Nat.le_add_right i k) (Nat.add_lt_add_left hlt i)

@[simp] theorem putBytes_size : (m.putBytes i bs).size = m.size := rfl

theorem byte_putBytes_outside (h : ¬ (i ≤ x ∧ x < i + bs.length)) :
    (m.putBytes i bs).byte x = m.byte x := if_neg h

theorem bytes_putBytes_same : (m.putBytes i bs).bytes i bs.length = bs := by
  refine List.ext_getElem length_bytes fun k hk hlt => ?_
  simp [bytes, putBytes, hlt]

theorem replay_append (ws ws' : List ByteWrite) :
    m.replay (ws ++ ws') = (m.replay ws).replay ws' := List.foldl_append

@[simp] theorem replay_size (ws : List ByteWrite) : (m.replay ws).size = m.size := by
  induction ws generalizing m with
  | nil => rfl
  | cons w ws ih => exact ih

theorem byte_replay_outside {ws : List ByteWrite}
    (h : ∀ w ∈ ws, ¬ (w.addr.toNat ≤ x ∧ x < w.addr.toNat + w.bytes.length)) :
    (m.replay ws).byte x = m.byte x := by
  induction ws generalizing m with
  | nil => rfl
  | cons w ws ih =>
    obtain ⟨hw, hws⟩ := List.forall_mem_cons.mp h
    exact (ih hws).trans (byte_putBytes_outside hw)

/-- Two writes that do not touch. -/
def Disjoint (w w' : ByteWrite) : Prop :=
  w.addr.toNat + w.bytes.length ≤ w'.addr.toNat ∨ w'.addr.toNat + w'.bytes.length ≤ w.addr.toNat

/-- Writes that do not touch each other are all there in the end. -/
theorem bytes_replay_of_disjoint {ws : List ByteWrite} (h : ws.Pairwise Disjoint) {w : ByteWrite}
    (hw : w ∈ ws) : (m.replay ws).bytes w.addr.toNat w.bytes.length = w.bytes := by
  induction ws generalizing m with
  | nil => cases hw
  | cons v ws ih =>
    obtain ⟨hv, hws⟩ := List.pairwise_cons.mp h
    rcases List.mem_cons.mp hw with rfl | hw
    · have hkept : SameAt ((m.putBytes w.addr.toNat w.bytes).replay ws)
          (m.putBytes w.addr.toNat w.bytes) w.addr.toNat w.bytes.length := by
        intro x hx hlt
        refine byte_replay_outside fun v hmem => ?_
        rcases hv v hmem with h | h <;> omega
      exact (bytes_congr hkept).trans bytes_putBytes_same
    · exact ih hws hw

end FlatMem

/-- A store, with the writes it has accepted. -/
structure Recorded (μ : Type) where
  store : μ
  writes : List ByteWrite := []

namespace Recorded

variable {μ : Type} [ByteStore μ]

instance : ByteStore (Recorded μ) where
  read m a n := ByteStore.read m.store a n
  write m a bs :=
    let r := ByteStore.write m.store a bs
    (⟨r.1, if r.2 then m.writes ++ [⟨a, bs⟩] else m.writes⟩, r.2)

/-- How many bytes were written. -/
def count (ws : List ByteWrite) : Nat := (ws.map fun w => w.bytes.length).sum

/-- The further writes of a run on flat memory, and the memory after them. -/
structure Wrote (m m' : Recorded FlatMem) (ws : List ByteWrite) : Prop where
  writes : m'.writes = m.writes ++ ws
  store : m'.store = m.store.replay ws

theorem Wrote.refl (m : Recorded FlatMem) : Wrote m m [] := ⟨(List.append_nil _).symm, rfl⟩

theorem Wrote.trans {m m' m'' : Recorded FlatMem} {ws ws' : List ByteWrite} (h : Wrote m m' ws)
    (h' : Wrote m' m'' ws') : Wrote m m'' (ws ++ ws') where
  writes := by rw [h'.writes, h.writes, List.append_assoc]
  store := by rw [h'.store, h.store, FlatMem.replay_append]

theorem write_of_fits {m : Recorded FlatMem} {a : Word} {bs : List Byte}
    (h : m.store.Fits a bs.length) :
    ∃ m', ByteStore.write m a bs = (m', true) ∧ Wrote m m' [⟨a, bs⟩] := by
  have hwrite : ByteStore.write m.store a bs = (m.store.putBytes a.toNat bs, true) := if_pos h
  refine ⟨⟨m.store.putBytes a.toNat bs, m.writes ++ [⟨a, bs⟩]⟩, ?_, rfl, rfl⟩
  simp only [ByteStore.write] at hwrite ⊢
  simp [hwrite]

theorem write_of_not_fits {m : Recorded FlatMem} {a : Word} {bs : List Byte}
    (h : ¬ m.store.Fits a bs.length) : ByteStore.write m a bs = (m, false) := by
  have hwrite : ByteStore.write m.store a bs = (m.store, false) := if_neg h
  simp only [ByteStore.write] at hwrite ⊢
  simp [hwrite]

end Recorded

end Rax

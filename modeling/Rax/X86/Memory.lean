import Rax.Lib.Word

/-!
# Guest-physical memory

The memory a guest sees at physical addresses: a partial map from addresses to bytes whose
first region starts at address zero. A multi-byte store goes byte by byte and stops at the
first unmapped address, so a failed store may have written a leading part.

Host pointers and the locking of the memory object are not modelled.
-/

namespace Rax.X86

/-- Guest-physical memory with the length of the region at address zero. -/
structure GuestMemory where
  byteAt : Word → Option Byte
  ramLen : Word
  lastAddr : Word
  ram_mapped : ∀ a : Word, a < ramLen → (byteAt a).isSome

namespace GuestMemory

/-- Replace the byte at a mapped address; an unmapped address stays unmapped. -/
def store (m : GuestMemory) (a : Word) (b : Byte) : GuestMemory where
  byteAt x := if x = a then (m.byteAt a).map fun _ => b else m.byteAt x
  ramLen := m.ramLen
  lastAddr := m.lastAddr
  ram_mapped x hx := by
    by_cases hxa : x = a
    · subst hxa
      simpa using m.ram_mapped x hx
    · simpa [hxa] using m.ram_mapped x hx

/-- The bytes at `a`, `a + 1`, …, when all of them are mapped. -/
def readSlice (m : GuestMemory) (a : Word) : Nat → Option (List Byte)
  | 0 => some []
  | n + 1 => do
      let b ← m.byteAt a
      let rest ← m.readSlice (a + 1) n
      return b :: rest

/-- Store bytes until the first unmapped address; the flag says whether all were stored. -/
def writeSlice (m : GuestMemory) (a : Word) : List Byte → Bool × GuestMemory
  | [] => (true, m)
  | b :: bs =>
      if (m.byteAt a).isSome then (m.store a b).writeSlice (a + 1) bs else (false, m)

/-- Whether all of `len` addresses from `a` on are mapped. -/
def checkRange (m : GuestMemory) (a : Word) (len : Nat) : Bool :=
  (m.readSlice a len).isSome

/-- The size of guest memory in bytes. -/
def memorySize (m : GuestMemory) : Word := m.lastAddr + 1

/-- Whether `len` bytes at `a` lie inside the region at address zero. -/
def inRam (m : GuestMemory) (a : Word) (len : Nat) : Bool :=
  m.ramLen != 0 && decide (a.toNat + len ≤ m.ramLen.toNat)

end GuestMemory

end Rax.X86

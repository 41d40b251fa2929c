import Rax.Lib.LeBytes
import Rax.X86.Reads
import Rax.X86.TlbState

/-!
# Accesses to plain memory

Inside a page, an access to mapped memory that no device claims reads or replaces the bytes
there and changes nothing else but the TLB.
-/

namespace Rax.X86

variable {δ : Type}

namespace Mmu

variable {m : Mmu δ} {t : TlbState} {p v : Word} {n : Nat} {bs : List Byte}
  {sregs : SystemRegisters}

/-- Mapped memory outside the device windows. -/
structure Plain (m : Mmu δ) (p : Word) (n : Nat) : Prop where
  notLapic : ¬ isLapicAddr p
  notPci : ¬ m.inPciAperture p
  mapped : m.memory.Mapped p n

/-- The unit with a TLB and a memory. -/
def moved (m : Mmu δ) (t : TlbState) (memory : GuestMemory) : Mmu δ :=
  { m.setTlb t with memory := memory }

theorem writePhys_plain [Devices δ] (h : m.Plain p bs.length) :
    m.writePhys p bs = (.ok (), m.moved m.tlbState (m.memory.put p bs)) := by
  unfold writePhys
  rw [if_neg h.notLapic, if_neg h.notPci, GuestMemory.writeSlice_of_mapped h.mapped]
  split_ifs
  · rfl
  · rfl
  · contradiction

theorem storeTyped_plain [Devices δ] {value : Word} (h : m.Plain p n) :
    m.storeTyped n value p = (.ok (), m.moved m.tlbState (m.memory.put p (toLeBytes n value))) := by
  unfold storeTyped
  split_ifs
  · rfl
  · exact writePhys_plain (by simpa using h)

section Reads

variable [DeviceReads δ]

theorem readPhys_plain (h : m.Plain p n) : m.readPhys p n = (.ok (m.memory.bytesAt p n), m) := by
  unfold readPhys
  rw [if_neg h.notLapic, if_neg h.notPci, GuestMemory.readSlice_of_mapped h.mapped]
  rfl

theorem loadTyped_plain (h : m.Plain p n) :
    m.loadTyped n p = (.ok (Word.fromLeBytes (m.memory.bytesAt p n)), m) := by
  unfold loadTyped
  rw [readPhys_plain h, GuestMemory.readSlice_of_mapped h.mapped]
  split_ifs <;> rfl

end Reads

end Mmu

end Rax.X86

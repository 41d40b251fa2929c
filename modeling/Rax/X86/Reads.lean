import Rax.X86.Smc

/-!
# Guest reads

The read half of the memory-management unit: physical reads with the interrupt controller and
the PCI aperture, reads at virtual addresses that may cross a page boundary, and the typed
reads that go to plain RAM directly.

Reads of devices may change the devices, so an access counts as made even if its value is
thrown away.
-/

namespace Rax.X86

variable {δ : Type}

theorem GuestMemory.length_of_readSlice {memory : GuestMemory} {n : Nat} {a : Word}
    {bytes : List Byte} (h : memory.readSlice a n = some bytes) : bytes.length = n := by
  induction n generalizing a bytes with
  | zero =>
    obtain rfl := Option.some.inj h
    rfl
  | succ n ih =>
    simp only [GuestMemory.readSlice, Option.bind_eq_bind, Option.bind_eq_some_iff] at h
    obtain ⟨b, _, rest, hrest, hbytes⟩ := h
    obtain rfl := Option.some.inj hbytes
    rw [List.length_cons, ih hrest]

/-- The devices as far as loads reach them. A PCI read that no device claims gives none. -/
class DeviceReads (δ : Type) extends Devices δ where
  lapicRead : δ → Word → BitVec 32 × δ
  mmioRead : δ → Word → Nat → Option (Nat → Byte) × δ

/-- The first `n` bytes of a register value. -/
def registerBytes (value : BitVec 32) (n : Nat) : List Byte := toLeBytes n (value.setWidth 64)

/-- The bytes of a memory read, or its failure. -/
def loaded (paddr : Word) : Option (List Byte) → Except Error (List Byte)
  | some bytes => .ok bytes
  | none => .error (.emulator (.read paddr))

namespace Mmu

/-- Go on with the result of a fallible operation. -/
def seq {α β : Type} (r : Except Error α × Mmu δ) (k : α → Mmu δ → Except Error β × Mmu δ) :
    Except Error β × Mmu δ :=
  match r with
  | (.ok a, m) => k a m
  | (.error e, m) => (.error e, m)

/-- Translate for reading and load from the physical address. -/
def readAt {α : Type} (m : Mmu δ) (vaddr : Word) (sregs : SystemRegisters)
    (load : Mmu δ → Word → Except Error α × Mmu δ) : Except Error α × Mmu δ :=
  seq (m.translate vaddr .read sregs) fun paddr m => load m paddr

variable [DeviceReads δ]

/-- A load from the interrupt controller. The register is read before the length is looked at,
and lengths other than 1, 2, 4 and 8 give zeros. -/
def lapicLoad (m : Mmu δ) (paddr : Word) (n : Nat) : List Byte × Mmu δ :=
  let offset := paddr - lapicBase
  let aligned := offset &&& ~~~0x3
  let (value, devices) := DeviceReads.lapicRead m.devices aligned
  match n with
  | 1 => (registerBytes (value >>> ((offset &&& 0x3).toNat * 8)) 1, { m with devices := devices })
  | 2 => (registerBytes (value >>> ((offset &&& 0x2).toNat * 8)) 2, { m with devices := devices })
  | 4 => (registerBytes value 4, { m with devices := devices })
  | 8 =>
    let (value2, devices) := DeviceReads.lapicRead devices (aligned + 0x10)
    (registerBytes value 4 ++ registerBytes value2 4, { m with devices := devices })
  | n => (List.replicate n 0, { m with devices := devices })

/-- A load from the PCI aperture, open bus where no device answers. -/
def pciLoad (m : Mmu δ) (paddr : Word) (n : Nat) : List Byte × Mmu δ :=
  match DeviceReads.mmioRead m.devices paddr n with
  | (some bytes, devices) => ((List.range n).map bytes, { m with devices := devices })
  | (none, devices) => (List.replicate n 0xFF, { m with devices := devices })

/-- Read bytes at a physical address: interrupt controller, PCI aperture, or memory. -/
def readPhys (m : Mmu δ) (paddr : Word) (n : Nat) : Except Error (List Byte) × Mmu δ :=
  if isLapicAddr paddr then (.ok (m.lapicLoad paddr n).1, (m.lapicLoad paddr n).2)
  else if m.inPciAperture paddr then (.ok (m.pciLoad paddr n).1, (m.pciLoad paddr n).2)
  else (loaded paddr (m.memory.readSlice paddr n), m)

theorem length_lapicLoad (m : Mmu δ) (paddr : Word) (n : Nat) :
    (m.lapicLoad paddr n).1.length = n := by
  unfold lapicLoad
  dsimp only
  split <;> simp [registerBytes]

theorem length_pciLoad (m : Mmu δ) (paddr : Word) (n : Nat) :
    (m.pciLoad paddr n).1.length = n := by
  unfold pciLoad
  split <;> simp

theorem length_readPhys {m m' : Mmu δ} {paddr : Word} {n : Nat} {bytes : List Byte}
    (h : m.readPhys paddr n = (.ok bytes, m')) : bytes.length = n := by
  unfold readPhys at h
  split at h
  · cases h
    exact length_lapicLoad m paddr n
  · split at h
    · cases h
      exact length_pciLoad m paddr n
    · cases hslice : m.memory.readSlice paddr n with
      | none =>
        rw [hslice] at h
        cases h
      | some bytes =>
        rw [hslice] at h
        cases h
        exact GuestMemory.length_of_readSlice hslice

/-- A read that crosses page boundaries; each round takes at least one byte. -/
def readCrossing (m : Mmu δ) (sregs : SystemRegisters) :
    (fuel : Nat) → (addr : Word) → (remaining : Nat) → Except Error (List Byte) × Mmu δ
  | 0, _, _ => (.ok [], m)
  | fuel + 1, addr, remaining =>
    if remaining = 0 then (.ok [], m)
    else
      seq (m.translate addr .read sregs) fun paddr m =>
      let bytesInPage := min remaining (0x1000 - (paddr &&& 0xFFF).toNat)
      seq (m.readPhys paddr bytesInPage) fun bytes m =>
      seq (readCrossing m sregs fuel (addr + BitVec.ofNat 64 bytesInPage)
        (remaining - bytesInPage)) fun rest m => (.ok (bytes ++ rest), m)

/-- Read bytes at a virtual address. -/
def read (m : Mmu δ) (vaddr : Word) (n : Nat) (sregs : SystemRegisters) :
    Except Error (List Byte) × Mmu δ :=
  seq
    (if (vaddr &&& 0xFFF).toNat + n ≤ 0x1000 then
      m.readAt vaddr sregs fun m paddr => m.readPhys paddr n
    else m.readCrossing sregs n vaddr n)
    fun bytes m =>
      (.ok bytes, m.record .read vaddr (BitVec.ofNat 8 (min n 255)) (leValue bytes))

/-- Load a typed value, directly when it lies in plain RAM. -/
def loadTyped (m : Mmu δ) (n : Nat) (paddr : Word) : Except Error Word × Mmu δ :=
  if m.ramPtr (BitVec.ofNat 64 n) paddr then
    (.ok (Word.fromLeBytes ((m.memory.readSlice paddr n).getD [])), m)
  else seq (m.readPhys paddr n) fun bytes m => (.ok (Word.fromLeBytes bytes), m)

/-- A typed read of `n` little-endian bytes: direct when it stays in its page. -/
def readTyped (m : Mmu δ) (n : Nat) (vaddr : Word) (sregs : SystemRegisters) :
    Except Error Word × Mmu δ :=
  if (vaddr &&& 0xFFF).toNat + n ≤ 0x1000 then
    seq (m.readAt vaddr sregs fun m paddr => m.loadTyped n paddr) fun value m =>
      (.ok value, m.record .read vaddr (BitVec.ofNat 8 n) value)
  else seq (m.read vaddr n sregs) fun bytes m => (.ok (Word.fromLeBytes bytes), m)

end Mmu

instance : DeviceReads Unit where
  lapicRead _ _ := (0, ())
  mmioRead _ _ _ := (none, ())

end Rax.X86

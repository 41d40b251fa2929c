import Rax.Devices.Ahci
import Rax.Devices.E1000
import Rax.Devices.Hpet
import Rax.Devices.Nvme
import Rax.Lib.StickyBits

/-!
# Registers that are cleared or set by ones

The interrupt registers of four devices. Each device serves a write of some bytes by replacing them
in what the register reads as, and writes the result; so ones that were read are written back. For
the masks that are set by ones this does nothing, since they read as themselves. Status bits
elsewhere in the register are lost.
-/

namespace Rax.Devices

theorem putBytes_eq_putBytesAt (v : Reg) (pos : Nat) (bs : List Byte) :
    v.putBytes pos bs = putBytesAt v pos bs := by
  induction bs generalizing v pos with
  | nil => rfl
  | cons b bs ih =>
    have hlt : pos < 4 ↔ 8 * pos < 32 := by omega
    rw [Reg.putBytes, putBytesAt, ih]
    simp only [hlt]
    rfl

/-- The address of a byte of a register. -/
def byteAddr (offset : Word) (pos : Nat) : Word := offset + BitVec.ofNat 64 pos

/-- A register that is found by the two parts of a byte's address. -/
def Locates (offset mask : Word) (n : Nat) : Prop :=
  ∀ pos < n, (byteAddr offset pos &&& ~~~mask) = offset ∧ (byteAddr offset pos &&& mask).toNat = pos

instance (offset mask : Word) (n : Nat) : Decidable (Locates offset mask n) :=
  inferInstanceAs (Decidable (∀ pos < n, _ ∧ _))

/-- The device takes its base off the address of an access. -/
theorem Locates.above {offset mask : Word} {n : Nat} (h : Locates offset mask n) (base : Word)
    {pos : Nat} (hpos : pos < n) : (base + byteAddr offset pos - base &&& ~~~mask) = offset ∧
      (base + byteAddr offset pos - base &&& mask).toNat = pos := by
  rw [BitVec.add_comm, BitVec.add_sub_cancel]
  exact h pos hpos

/-! ## HPET -/

theorem Hpet.write_intStatus (s : Hpet) (now pos : Nat) (data : List Byte) (hpos : 8 * pos < 64) :
    s.write now (Hpet.hpetBase + byteAddr Hpet.regGenIntStatus pos) data =
      { s with intStatus := s.intStatus &&& ~~~putBytesAt s.intStatus pos data } := by
  have hlocates : Locates Hpet.regGenIntStatus 7 8 := by decide
  obtain ⟨hreg, hplace⟩ : Hpet.alignedOffset (Hpet.hpetBase + byteAddr Hpet.regGenIntStatus pos) =
      Hpet.regGenIntStatus ∧
        Hpet.byteInReg (Hpet.hpetBase + byteAddr Hpet.regGenIntStatus pos) = pos :=
    hlocates.above Hpet.hpetBase (by omega)
  rw [Hpet.write, hreg, hplace]
  rfl

def Hpet.intStatusRegister (now : Nat) : StickyRegister Hpet 64 where
  kind := .clear
  reads := Hpet.intStatus
  bits := Hpet.intStatus
  put s v := { s with intStatus := v }
  write s pos data := s.write now (Hpet.hpetBase + byteAddr Hpet.regGenIntStatus pos) data
  write_eq s pos data hpos := s.write_intStatus now pos data hpos

/-! ## NVMe -/

namespace NvmeController

variable {μ : Type} [ByteStore μ]

theorem write_at {offset : Word} (hlocates : Locates offset 3 4) (hlow : offset.toNat < 0x1000)
    (s : NvmeController μ) {pos : Nat} (hpos : pos < 4) (data : List Byte) :
    (s.write (s.base + byteAddr offset pos) data).2 =
      s.writeControl offset.toNat (putBytesAt (s.readReg32 offset.toNat) pos data) := by
  obtain ⟨haligned, hbyte⟩ := hlocates.above s.base hpos
  have hreg : s.alignedOffset (s.base + byteAddr offset pos) = offset.toNat :=
    congrArg BitVec.toNat haligned
  have hplace : s.byteInReg (s.base + byteAddr offset pos) = pos := hbyte
  rw [write, merged, hreg, hplace, putBytes_eq_putBytesAt, writeReg32, if_neg (by omega)]

/-- INTMS and INTMC are two ways to write one mask. -/
def maskRegister (kind : StickyKind) (offset : Word)
    (hwrite : ∀ (s : NvmeController μ) (pos : Nat) (data : List Byte), pos < 4 →
      (s.write (s.base + byteAddr offset pos) data).2 =
        { s with intms := kind.apply s.intms (putBytesAt s.intms pos data) }) :
    StickyRegister (NvmeController μ) 32 where
  kind
  reads := NvmeController.intms
  bits := NvmeController.intms
  put s v := { s with intms := v }
  write s pos data := (s.write (s.base + byteAddr offset pos) data).2
  write_eq s pos data hpos := hwrite s pos data (by omega)

def intmsRegister : StickyRegister (NvmeController μ) 32 :=
  maskRegister .set 0x0C fun s _ data hpos => write_at (by decide) (by decide) s hpos data

def intmcRegister : StickyRegister (NvmeController μ) 32 :=
  maskRegister .clear 0x10 fun s _ data hpos => write_at (by decide) (by decide) s hpos data

end NvmeController

/-! ## AHCI -/

namespace AhciController

variable {μ : Type} [ByteStore μ]

theorem write_at {offset : Word} (hlocates : Locates offset 3 4) (s : AhciController μ) {pos : Nat}
    (hpos : pos < 4) (data : List Byte) :
    s.write (s.base + byteAddr offset pos) data =
      s.writeReg32 offset.toNat (putBytesAt (s.readReg32 offset.toNat) pos data) := by
  obtain ⟨haligned, hbyte⟩ := hlocates.above s.base hpos
  have hreg : s.alignedOffset (s.base + byteAddr offset pos) = offset.toNat :=
    congrArg BitVec.toNat haligned
  have hplace : s.byteInReg (s.base + byteAddr offset pos) = pos := hbyte
  rw [write, hreg, hplace, putBytes_eq_putBytesAt]

theorem pxIs_access (s : AhciController μ) (v : Reg) :
    s.readReg32 0x110 = s.port.is ∧
      s.writeReg32 0x110 v = { s with port := { s.port with is := s.port.is &&& ~~~v } } := by
  simp [readReg32, readPortReg, writeReg32, writePortReg]

theorem pxSerr_access (s : AhciController μ) (v : Reg) :
    s.readReg32 0x130 = s.port.serr ∧
      s.writeReg32 0x130 v = { s with port := { s.port with serr := s.port.serr &&& ~~~v } } := by
  simp [readReg32, readPortReg, writeReg32, writePortReg]

def isRegister : StickyRegister (AhciController μ) 32 where
  kind := .clear
  reads := AhciController.is
  bits := AhciController.is
  put s v := { s with is := v }
  write s pos data := s.write (s.base + byteAddr 0x08 pos) data
  write_eq s _ data hpos := write_at (by decide) s (by omega) data

def pxIsRegister : StickyRegister (AhciController μ) 32 where
  kind := .clear
  reads s := s.port.is
  bits s := s.port.is
  put s v := { s with port := { s.port with is := v } }
  write s pos data := s.write (s.base + byteAddr 0x110 pos) data
  write_eq s pos data hpos := by
    have hwrite := write_at (show Locates 0x110 3 4 by decide) s (show pos < 4 by omega) data
    rw [hwrite, show (0x110 : Word).toNat = 0x110 from rfl, (pxIs_access s 0).1,
      (pxIs_access s _).2]
    rfl

def pxSerrRegister : StickyRegister (AhciController μ) 32 where
  kind := .clear
  reads s := s.port.serr
  bits s := s.port.serr
  put s v := { s with port := { s.port with serr := v } }
  write s pos data := s.write (s.base + byteAddr 0x130 pos) data
  write_eq s pos data hpos := by
    have hwrite := write_at (show Locates 0x130 3 4 by decide) s (show pos < 4 by omega) data
    rw [hwrite, show (0x130 : Word).toNat = 0x130 from rfl, (pxSerr_access s 0).1,
      (pxSerr_access s _).2]
    rfl

end AhciController

/-! ## e1000 -/

namespace E1000

theorem write_at {offset : Word} (hlocates : Locates offset 3 4) (s : E1000) {pos : Nat}
    (hpos : pos < 4) (data : List Byte) :
    s.write (byteAddr offset pos) data =
      s.writeReg offset.toNat (putBytesAt (s.peekReg offset.toNat) pos data) := by
  obtain ⟨haligned, hbyte⟩ := hlocates pos hpos
  have hreg : alignedOffset (byteAddr offset pos) = offset.toNat := congrArg BitVec.toNat haligned
  have hplace : byteInReg (byteAddr offset pos) = pos := hbyte
  rw [write, hreg, hplace, putBytes_eq_putBytesAt]

def icrRegister : StickyRegister E1000 32 where
  kind := .clear
  reads := E1000.icr
  bits := E1000.icr
  put s v := { s with icr := v }
  write s pos data := s.write (byteAddr 0xC0 pos) data
  write_eq s _ data hpos := write_at (by decide) s (by omega) data

/-- Sets causes, but reads as the mask. -/
def icsRegister : StickyRegister E1000 32 where
  kind := .set
  reads := E1000.ims
  bits := E1000.icr
  put s v := { s with icr := v }
  write s pos data := s.write (byteAddr 0xC8 pos) data
  write_eq s _ data hpos := write_at (by decide) s (by omega) data

def imsRegister : StickyRegister E1000 32 where
  kind := .set
  reads := E1000.ims
  bits := E1000.ims
  put s v := { s with ims := v }
  write s pos data := s.write (byteAddr 0xD0 pos) data
  write_eq s _ data hpos := write_at (by decide) s (by omega) data

def imcRegister : StickyRegister E1000 32 where
  kind := .clear
  reads := E1000.ims
  bits := E1000.ims
  put s v := { s with ims := v }
  write s pos data := s.write (byteAddr 0xD8 pos) data
  write_eq s _ data hpos := write_at (by decide) s (by omega) data

end E1000

/-! ## All of them -/

/-- The registers; the HPET is written at some time. -/
inductive StickyName where
  | hpetIntStatus (now : Nat)
  | nvmeIntms
  | nvmeIntmc
  | ahciIs
  | ahciPxIs
  | ahciPxSerr
  | e1000Icr
  | e1000Ics
  | e1000Ims
  | e1000Imc

namespace StickyName

/-- The device that a register belongs to. -/
def State (μ : Type) : StickyName → Type
  | .hpetIntStatus _ => Hpet
  | .nvmeIntms | .nvmeIntmc => NvmeController μ
  | .ahciIs | .ahciPxIs | .ahciPxSerr => AhciController μ
  | .e1000Icr | .e1000Ics | .e1000Ims | .e1000Imc => E1000

def width : StickyName → Nat
  | .hpetIntStatus _ => 64
  | _ => 32

variable {μ : Type} [ByteStore μ]

def register : (name : StickyName) → StickyRegister (name.State μ) name.width
  | .hpetIntStatus now => Hpet.intStatusRegister now
  | .nvmeIntms => NvmeController.intmsRegister
  | .nvmeIntmc => NvmeController.intmcRegister
  | .ahciIs => AhciController.isRegister
  | .ahciPxIs => AhciController.pxIsRegister
  | .ahciPxSerr => AhciController.pxSerrRegister
  | .e1000Icr => E1000.icrRegister
  | .e1000Ics => E1000.icsRegister
  | .e1000Ims => E1000.imsRegister
  | .e1000Imc => E1000.imcRegister

theorem width_pos (name : StickyName) : 0 < name.width := by
  cases name <;> simp [width]

/-- A write affects only the bits written as one if and only if the ones that are read elsewhere in
the register do nothing; and when this is so for each byte, byte by byte is as good as all at
once. -/
theorem write_only_ones_iff (name : StickyName) (s : name.State μ) (pos : Nat) (data : List Byte)
    (hpos : 8 * pos < name.width) :
    (name.register.OnlyOnes s pos data ↔ name.register.Calm s pos data.length) ∧
      ∀ bytes : List Byte, 8 * bytes.length = name.width → name.register.CalmBytes s 0 bytes →
        name.register.writeBytes s 0 bytes = name.register.write s 0 bytes :=
  ⟨name.register.onlyOnes_iff_calm hpos, fun _ hlen hcalm =>
    name.register.writeBytes_eq_write hlen name.width_pos hcalm⟩

/-- An e1000 with interrupts 0, 7 and, on request, 8 enabled. -/
def sampleMasked (second : Byte) : E1000 :=
  (E1000.new 0x52 0x54 0x00 0x12 0x34 0x56).write 0xD0 [0x81, second, 0, 0]

/-- With no other byte in use, one byte of IMC may be written. -/
theorem lone_byte_only_ones :
    (StickyName.e1000Imc.register (μ := FlatMem)).OnlyOnes (sampleMasked 0) 0 [1] :=
  (write_only_ones_iff .e1000Imc (sampleMasked 0) 0 [1] (by decide)).1.mpr
    (show E1000.imcRegister.Calm (sampleMasked 0) 0 1 by decide +kernel)

/-- Otherwise the enabled interrupt in the next byte goes too, and byte by byte is not the word. -/
theorem other_byte_cleared :
    ¬(StickyName.e1000Imc.register (μ := FlatMem)).OnlyOnes (sampleMasked 1) 0 [1] ∧
      ((sampleMasked 1).write 0xD8 [1]).ims = 0x80 ∧
      ((((sampleMasked 1).write 0xD8 [1]).write 0xD9 [0]).write 0xDA [0]).write 0xDB [0] ≠
        (sampleMasked 1).write 0xD8 [1, 0, 0, 0] := by
  refine ⟨fun h => ?_, by decide +kernel, by decide +kernel⟩
  have hbits := congrArg E1000.ims h
  revert hbits
  decide +kernel

end StickyName

end Rax.Devices

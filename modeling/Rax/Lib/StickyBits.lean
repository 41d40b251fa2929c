import Rax.Lib.Word

/-!
# Registers where ones are written

Writing a one to a bit of such a register sets it, or clears it, and writing a zero does nothing. A
device that serves a write of some bytes by reading the whole register, replacing the bytes and
writing the result also writes the ones that it has read. This is harmless for exactly the bits that
already are as a written one makes them.
-/

namespace Rax

universe u

variable {w : Nat}

/-! ## Bytes of a register -/

def putByteAt (v : BitVec w) (k : Nat) (b : Byte) : BitVec w :=
  (v &&& ~~~(BitVec.ofNat w 0xFF <<< (8 * k))) ||| (b.setWidth w <<< (8 * k))

/-- Replace bytes from a position on; bytes past the end are dropped. -/
def putBytesAt (v : BitVec w) : Nat → List Byte → BitVec w
  | _, [] => v
  | pos, b :: bs => putBytesAt (if 8 * pos < w then putByteAt v pos b else v) (pos + 1) bs

/-- The byte that a bit belongs to is among `n` bytes from a position on. -/
def Covered (pos n i : Nat) : Prop := pos ≤ i / 8 ∧ i / 8 < pos + n

instance (pos n i : Nat) : Decidable (Covered pos n i) := inferInstanceAs (Decidable (_ ∧ _))

theorem getLsbD_putByteAt {v : BitVec w} {k i : Nat} {b : Byte} (hi : i < w) :
    (putByteAt v k b).getLsbD i = if i / 8 = k then b.getLsbD (i % 8) else v.getLsbD i := by
  have hff : (0xFF : Nat) = 2 ^ 8 - 1 := rfl
  simp only [putByteAt, BitVec.getLsbD_or, BitVec.getLsbD_and, BitVec.getLsbD_not,
    BitVec.getLsbD_shiftLeft, BitVec.getLsbD_setWidth, BitVec.getLsbD_ofNat, hff,
    Nat.testBit_two_pow_sub_one, hi, decide_true, Bool.true_and]
  by_cases hlow : i < 8 * k
  · rw [if_neg (by omega)]
    simp [hlow]
  · by_cases hbyte : i / 8 = k
    · rw [if_pos hbyte, show i - 8 * k = i % 8 by omega]
      simp [hlow, Nat.mod_lt, show i % 8 < w by omega]
    · have hout : b.getLsbD (i - 8 * k) = false := BitVec.getLsbD_of_ge b _ (by omega)
      rw [if_neg hbyte, hout]
      simp [show ¬i - 8 * k < 8 by omega]

/-- Bits outside the first byte are covered by the others or not at all. -/
theorem ite_covered_cons {pos i : Nat} {b : Byte} {bs : List Byte} (h : i / 8 ≠ pos) (x : Bool) :
    (if Covered pos (b :: bs).length i then ((b :: bs).getD (i / 8 - pos) 0).getLsbD (i % 8)
      else x) =
      if Covered (pos + 1) bs.length i then (bs.getD (i / 8 - (pos + 1)) 0).getLsbD (i % 8)
      else x := by
  have hiff : Covered pos (b :: bs).length i ↔ Covered (pos + 1) bs.length i := by
    simp only [Covered, List.length_cons]
    omega
  by_cases hlater : Covered (pos + 1) bs.length i
  · rw [if_pos hlater, if_pos (hiff.mpr hlater), show i / 8 - pos = i / 8 - (pos + 1) + 1 by
      have := hlater.1; omega, List.getD_cons_succ]
  · rw [if_neg hlater, if_neg (mt hiff.mp hlater)]

theorem getLsbD_putBytesAt {v : BitVec w} {pos i : Nat} {bs : List Byte} (hi : i < w) :
    (putBytesAt v pos bs).getLsbD i =
      if Covered pos bs.length i then (bs.getD (i / 8 - pos) 0).getLsbD (i % 8)
      else v.getLsbD i := by
  induction bs generalizing v pos with
  | nil =>
    rw [putBytesAt, if_neg]
    rintro ⟨h, h'⟩
    simp only [List.length_nil] at h'
    omega
  | cons b bs ih =>
    rw [putBytesAt, ih]
    by_cases hhere : i / 8 = pos
    · have hlt : 8 * pos < w := by omega
      rw [if_neg (by rintro ⟨h, -⟩; omega), if_pos hlt, getLsbD_putByteAt hi, if_pos hhere,
        if_pos ⟨by omega, by simp only [List.length_cons]; omega⟩, hhere, Nat.sub_self,
        List.getD_cons_zero]
    · have hkeep : (if 8 * pos < w then putByteAt v pos b else v).getLsbD i = v.getLsbD i := by
        split
        · rw [getLsbD_putByteAt hi, if_neg hhere]
        · rfl
      rw [hkeep]
      exact (ite_covered_cons hhere _).symm

/-! ## Setting and clearing -/

inductive StickyKind where
  | clear
  | set
  deriving DecidableEq

namespace StickyKind

/-- The register after a value is written to it. -/
def apply : StickyKind → BitVec w → BitVec w → BitVec w
  | .clear, t, v => t &&& ~~~v
  | .set, t, v => t ||| v

/-- What a written one makes of a bit. -/
def done : StickyKind → Bool
  | .clear => false
  | .set => true

variable (k : StickyKind) {t v v' r : BitVec w} {pos : Nat} {bs : List Byte}

theorem getLsbD_apply {i : Nat} (hi : i < w) :
    (k.apply t v).getLsbD i = if v.getLsbD i then k.done else t.getLsbD i := by
  cases k with
  | clear =>
    rw [apply, BitVec.getLsbD_and, BitVec.getLsbD_not, decide_eq_true hi]
    cases v.getLsbD i <;> simp [done]
  | set =>
    rw [apply, BitVec.getLsbD_or]
    cases v.getLsbD i <;> simp [done]

theorem apply_apply : k.apply (k.apply t v) v' = k.apply t (v ||| v') := by
  refine BitVec.eq_of_getLsbD_eq fun i hi => ?_
  rw [getLsbD_apply k hi, getLsbD_apply k hi, getLsbD_apply k hi, BitVec.getLsbD_or]
  cases v.getLsbD i <;> cases v'.getLsbD i <;> rfl

/-- The ones that were read change nothing if and only if their bits are done. -/
theorem apply_putBytesAt_iff :
    k.apply t (putBytesAt r pos bs) = k.apply t (putBytesAt 0 pos bs) ↔
      ∀ i < w, ¬Covered pos bs.length i → r.getLsbD i = true → t.getLsbD i = k.done := by
  constructor
  · intro h i hi hout hr
    have hbit := congrArg (·.getLsbD i) h
    simp only [getLsbD_apply k hi, getLsbD_putBytesAt hi, if_neg hout, hr] at hbit
    simpa using hbit.symm
  · intro h
    refine BitVec.eq_of_getLsbD_eq fun i hi => ?_
    rw [getLsbD_apply k hi, getLsbD_apply k hi, getLsbD_putBytesAt hi, getLsbD_putBytesAt hi]
    by_cases hout : Covered pos bs.length i
    · rw [if_pos hout, if_pos hout]
    · rw [if_neg hout, if_neg hout]
      cases hr : r.getLsbD i with
      | false => simp
      | true => simp [h i hi hout hr]

end StickyKind

/-- One byte, and then those after it. -/
theorem putBytesAt_zero_or {pos : Nat} {b : Byte} {bs : List Byte} :
    putBytesAt (0 : BitVec w) pos [b] ||| putBytesAt 0 (pos + 1) bs =
      putBytesAt 0 pos (b :: bs) := by
  refine BitVec.eq_of_getLsbD_eq fun i hi => ?_
  rw [BitVec.getLsbD_or, getLsbD_putBytesAt hi, getLsbD_putBytesAt hi, getLsbD_putBytesAt hi]
  by_cases hhere : i / 8 = pos
  · rw [if_pos ⟨by omega, by simp only [List.length_singleton]; omega⟩,
      if_neg (by rintro ⟨h, -⟩; omega),
      if_pos ⟨by omega, by simp only [List.length_cons]; omega⟩, hhere, Nat.sub_self]
    simp
  · rw [if_neg (by rintro ⟨h, h'⟩; simp only [List.length_singleton] at h'; omega)]
    rw [ite_covered_cons hhere]
    simp

/-! ## Registers of a device -/

/-- A register of a device: what it reads as, the bits that are written, and the device's write of
some bytes, which replaces them in what was read. -/
structure StickyRegister (σ : Type u) (w : Nat) where
  kind : StickyKind
  reads : σ → BitVec w
  bits : σ → BitVec w
  put : σ → BitVec w → σ
  write : σ → Nat → List Byte → σ
  bits_put : ∀ s v, bits (put s v) = v := by intros; rfl
  put_bits : ∀ s, put s (bits s) = s := by intros; rfl
  put_put : ∀ s v v', put (put s v) v' = put s v' := by intros; rfl
  write_eq : ∀ s pos data, 8 * pos < w →
    write s pos data = put s (kind.apply (bits s) (putBytesAt (reads s) pos data))

namespace StickyRegister

variable {σ : Type u} (r : StickyRegister σ w) {s : σ} {pos : Nat} {data : List Byte}

/-- Only bits that are written as one are affected, and nothing else of the device is. -/
def OnlyOnes (s : σ) (pos : Nat) (data : List Byte) : Prop :=
  r.write s pos data = r.put s (r.kind.apply (r.bits s) (putBytesAt 0 pos data))

/-- Every bit that reads as one, and is not among the `n` bytes written, is as a written one makes
it. -/
def Calm (s : σ) (pos n : Nat) : Prop :=
  ∀ i < w, ¬Covered pos n i → (r.reads s).getLsbD i = true → (r.bits s).getLsbD i = r.kind.done

instance (s : σ) (pos n : Nat) : Decidable (r.Calm s pos n) :=
  inferInstanceAs (Decidable (∀ i < w, _ → _ → _))

theorem onlyOnes_iff_calm (hpos : 8 * pos < w) :
    r.OnlyOnes s pos data ↔ r.Calm s pos data.length := by
  rw [OnlyOnes, r.write_eq s pos data hpos, Calm, ← r.kind.apply_putBytesAt_iff]
  constructor
  · intro h
    have hbits := congrArg r.bits h
    rwa [r.bits_put, r.bits_put] at hbits
  · intro h
    rw [h]

/-- Byte after byte. -/
def writeBytes : σ → Nat → List Byte → σ
  | s, _, [] => s
  | s, pos, b :: bs => writeBytes (r.write s pos [b]) (pos + 1) bs

/-- Each byte finds the other bits calm. -/
def CalmBytes : σ → Nat → List Byte → Prop
  | _, _, [] => True
  | s, pos, b :: bs => r.Calm s pos 1 ∧ CalmBytes (r.write s pos [b]) (pos + 1) bs

/-- The induction is on the bytes that are left; the ones written so far add up. -/
theorem writeBytes_eq {bs : List Byte} (hlen : 8 * (pos + bs.length) ≤ w)
    (hcalm : r.CalmBytes s pos bs) :
    r.writeBytes s pos bs = r.put s (r.kind.apply (r.bits s) (putBytesAt 0 pos bs)) := by
  induction bs generalizing s pos with
  | nil =>
    have hnone : r.kind.apply (r.bits s) (putBytesAt 0 pos []) = r.bits s := by
      refine BitVec.eq_of_getLsbD_eq fun i hi => ?_
      rw [StickyKind.getLsbD_apply _ hi, putBytesAt]
      simp
    rw [writeBytes, hnone, r.put_bits]
  | cons b bs ih =>
    obtain ⟨hfirst, hrest⟩ := hcalm
    rw [List.length_cons] at hlen
    have hone : r.write s pos [b] =
        r.put s (r.kind.apply (r.bits s) (putBytesAt 0 pos [b])) :=
      (r.onlyOnes_iff_calm (by omega)).mpr hfirst
    rw [writeBytes, ih (by omega) hrest, hone, r.bits_put,
      r.put_put, StickyKind.apply_apply, putBytesAt_zero_or]

theorem writeBytes_eq_write {bs : List Byte} (hlen : 8 * bs.length = w) (hpos : 0 < w)
    (hcalm : r.CalmBytes s 0 bs) :
    r.writeBytes s 0 bs = r.write s 0 bs := by
  have hwhole : r.Calm s 0 bs.length := fun i hi hout _ => absurd ⟨Nat.zero_le _, by omega⟩ hout
  rw [r.writeBytes_eq (by omega) hcalm]
  exact ((r.onlyOnes_iff_calm (by omega)).mpr hwhole).symm

end StickyRegister

end Rax

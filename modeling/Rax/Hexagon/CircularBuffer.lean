import Mathlib.Data.Int.ModEq
import Rax.Lib.Bytes

/-!
# Circular buffers

`hex_circ_add` moves a pointer by a signed increment and brings it back into the buffer by one
length. It compares wrapped addresses, so a buffer at an end of the address space goes wrong.
-/

namespace Rax.Hexagon

/-- The length field of a modifier register. -/
def circLength (m : Reg) : Reg := m &&& 0x1FFFF

/-- The K field. -/
def circK (m : Reg) : Reg := (m >>> 24) &&& 0xF

/-- The start and end of the buffer; with a K field they come from the pointer. -/
def circBounds (reg m cs : Reg) : Reg × Reg :=
  if circK m = 0 ∧ 4 ≤ circLength m then (cs, cs + circLength m)
  else
    (reg &&& ~~~((1#32 <<< ((circK m).toNat + 2)) - 1#32),
      (reg &&& ~~~((1#32 <<< ((circK m).toNat + 2)) - 1#32)) |||
        (circLength m &&& ((1#32 <<< ((circK m).toNat + 2)) - 1#32)))

def hexCircAdd (reg incr m cs : Reg) : Reg :=
  if (circBounds reg m cs).2 ≤ reg + incr then reg + incr - circLength m
  else if reg + incr < (circBounds reg m cs).1 then reg + incr + circLength m
  else reg + incr

/-- The buffer of a modifier register without a K field lies in the address space, the pointer in
the buffer, and the increment is at most the length. -/
structure InBuffer (reg incr m cs : Reg) : Prop where
  plain : circK m = 0
  length : 4 ≤ (circLength m).toNat
  space : cs.toNat + (circLength m).toNat ≤ 2 ^ 32
  low : cs.toNat ≤ reg.toNat
  high : reg.toNat < cs.toNat + (circLength m).toNat
  increment : -((circLength m).toNat : Int) ≤ incr.toInt ∧ incr.toInt ≤ (circLength m).toNat

/-- The result is in the buffer, at the place of the sum modulo the length. -/
def StaysIn (reg incr m cs : Reg) : Prop :=
  (cs.toNat ≤ (hexCircAdd reg incr m cs).toNat ∧
    (hexCircAdd reg incr m cs).toNat < cs.toNat + (circLength m).toNat) ∧
  ((hexCircAdd reg incr m cs).toNat : Int) ≡ reg.toNat + incr.toInt [ZMOD (circLength m).toNat]

/-- Below the top of the address space the sum must not wrap; a buffer that ends at the top is left
only upwards. -/
def SumFits (reg incr m cs : Reg) : Prop :=
  if cs.toNat + (circLength m).toNat < 2 ^ 32 then
    0 ≤ reg.toNat + incr.toInt ∧ reg.toNat + incr.toInt < 2 ^ 32
  else 2 ^ 32 ≤ reg.toNat + incr.toInt

theorem circLength_lt (m : Reg) : (circLength m).toNat < 2 ^ 17 := by
  have hmask : (0x1FFFF : Reg).toNat = 2 ^ 17 - 1 := rfl
  rw [circLength, BitVec.toNat_and, hmask, Nat.and_two_pow_sub_one_eq_mod]
  exact Nat.mod_lt _ (by decide)

/-- The pointer stays in its buffer exactly where the sum of pointer and increment fits. -/
theorem staysIn_iff {reg incr m cs : Reg} (h : InBuffer reg incr m cs) :
    StaysIn reg incr m cs ↔ SumFits reg incr m cs := by
  have hlength := h.length
  have hspace := h.space
  have hlow := h.low
  have hhigh := h.high
  have hincr := h.increment
  have hlt := circLength_lt m
  have hbounds : circBounds reg m cs = (cs, cs + circLength m) :=
    if_pos ⟨h.plain, BitVec.le_def.mpr h.length⟩
  have hsum := BitVec.toNat_add reg incr
  have hend := BitVec.toNat_add cs (circLength m)
  have hsigned := BitVec.toInt_eq_toNat_cond incr
  have hcs := cs.isLt
  have hreg := reg.isLt
  have hi := incr.isLt
  have hup := BitVec.toNat_add (reg + incr) (circLength m)
  have hdown := BitVec.toNat_sub (reg + incr) (circLength m)
  -- the result as a number, by the branch taken
  have hresult : (hexCircAdd reg incr m cs).toNat =
      if (cs + circLength m).toNat ≤ (reg + incr).toNat then
        (reg + incr - circLength m).toNat
      else if (reg + incr).toNat < cs.toNat then (reg + incr + circLength m).toNat
      else (reg + incr).toNat := by
    rw [hexCircAdd, hbounds]
    simp only [BitVec.le_def, BitVec.lt_def]
    split_ifs <;> rfl
  have hstays (k : Int) (h : ((hexCircAdd reg incr m cs).toNat : Int) + (circLength m).toNat * k =
      reg.toNat + incr.toInt) : ((hexCircAdd reg incr m cs).toNat : Int) ≡
        reg.toNat + incr.toInt [ZMOD (circLength m).toNat] :=
    Int.modEq_iff_dvd.mpr ⟨k, by omega⟩
  rw [StaysIn, SumFits]
  generalize hexCircAdd reg incr m cs = r at hresult hstays ⊢
  generalize (reg + incr).toNat = s at *
  generalize incr.toInt = i at *
  by_cases htop : cs.toNat + (circLength m).toNat < 2 ^ 32
  · rw [if_pos htop]
    have hnowrap : (cs + circLength m).toNat = cs.toNat + (circLength m).toNat := by omega
    rw [hnowrap] at hresult
    constructor
    · rintro ⟨hin, -⟩
      split_ifs at hresult <;> split_ifs at hsigned <;> omega
    · rintro ⟨hnonneg, hfits⟩
      have hexact : (s : Int) = reg.toNat + i := by split_ifs at hsigned <;> omega
      split_ifs at hresult
      · exact ⟨by omega, hstays 1 (by omega)⟩
      · exact ⟨by omega, hstays (-1) (by omega)⟩
      · exact ⟨by omega, hstays 0 (by omega)⟩
  · rw [if_neg htop]
    have hwrap : (cs + circLength m).toNat = 0 := by omega
    rw [hwrap, if_pos (Nat.zero_le s)] at hresult
    constructor
    · rintro ⟨hin, -⟩
      split_ifs at hsigned <;> omega
    · intro hover
      have hexact : (s : Int) + 2 ^ 32 = reg.toNat + i := by split_ifs at hsigned <;> omega
      exact ⟨by omega, hstays 1 (by omega)⟩

/-- A step of one word in a buffer of four at 0x1000. -/
theorem staysIn_iff_low :
    InBuffer 0x100C 4 16 0x1000 ∧ (StaysIn 0x100C 4 16 0x1000 ↔ SumFits 0x100C 4 16 0x1000) := by
  have h : InBuffer 0x100C 4 16 0x1000 :=
    ⟨by decide, by decide, by decide, by decide, by decide, by decide, by decide⟩
  exact ⟨h, staysIn_iff h⟩

/-- A buffer in the last word of the address space, with no step at all, and one at address 0, with
a step down. -/
theorem circAdd_leaves :
    (InBuffer 0xFFFFFFFC 0 4 0xFFFFFFFC ∧ ¬StaysIn 0xFFFFFFFC 0 4 0xFFFFFFFC) ∧
      (InBuffer 0 0xFFFFFFFF 4 0 ∧ ¬StaysIn 0 0xFFFFFFFF 4 0) := by
  refine ⟨⟨⟨by decide, by decide, by decide, by decide, by decide, by decide, by decide⟩, ?_⟩,
    ⟨by decide, by decide, by decide, by decide, by decide, by decide, by decide⟩, ?_⟩
  · rintro ⟨⟨hlow, -⟩, -⟩
    exact absurd hlow (by decide)
  · rintro ⟨⟨-, hhigh⟩, -⟩
    exact absurd hhigh (by decide)

end Rax.Hexagon

import Rax.Lib.Rotate
import Rax.Smir.Interpret.Width

/-!
# Rotates through carry as rotations

`x86_rcl` and `x86_rcr` move one bit at a time between the value and the carry. Each step rotates
the carry and the value, taken as one bit vector, by one place.
-/

namespace Rax.Smir

namespace Interpret

/-- CF above the bits of the value. -/
def carried (n : Nat) (s : Word × Bool) : BitVec (n + 1) := BitVec.cons s.2 (s.1.setWidth n)

/-- A rotation in the direction of an instruction. -/
def rotated {n : Nat} (kind : RotateCarryKind) (q : BitVec n) (k : Nat) : BitVec n :=
  match kind with
  | .rcl => q.rotateLeft k
  | .rcr => q.rotateRight k

theorem getLsbD_carried {n i : Nat} (s : Word × Bool) (hi : i ≤ n) :
    (carried n s).getLsbD i = if i = n then s.2 else s.1.getLsbD i := by
  rw [carried, BitVec.getLsbD_cons]
  by_cases heq : i = n
  · rw [if_pos heq, if_pos heq]
  · have hlt : i < n := by omega
    rw [if_neg heq, if_neg heq, BitVec.getLsbD_setWidth, decide_eq_true hlt, Bool.true_and]

section Step

variable (width : OpWidth)

theorem getLsbD_carryBit (c : Bool) (i : Nat) :
    (if c then 1 else 0 : Word).getLsbD i = (decide (i = 0) && c) := by
  cases c with
  | false => simp
  | true =>
    rw [if_pos rfl, Bool.and_true]
    exact BitVec.getLsbD_one.trans (by simp)

/-- A left step brings the carry in at the bottom and the top bit out. -/
theorem rclStep_bits (r : Word) (c : Bool) :
    (rotateCarryStep .rcl width (r, c)).2 = r.getLsbD (width.wordBits - 1) ∧
      ∀ i < width.wordBits, (rotateCarryStep .rcl width (r, c)).1.getLsbD i =
        if i = 0 then c else r.getLsbD (i - 1) := by
  have hle := width.wordBits_le
  constructor
  · show (Word.shr r (width.bits - 1)).getLsbD 0 = _
    rw [Word.shr, BitVec.getLsbD_ushiftRight, width.bits_sub_one_mod, Nat.add_zero]
  · intro i hi
    show (((r <<< 1) ||| (if c then 1 else 0)) &&& width.mask).getLsbD i = _
    rw [BitVec.getLsbD_and, BitVec.getLsbD_or, BitVec.getLsbD_shiftLeft, getLsbD_carryBit,
      width.getLsbD_mask, decide_eq_true hi, Bool.and_true]
    cases i with
    | zero => simp
    | succ i =>
      have hword : i + 1 < 64 := by omega
      simp [hword]

/-- A right step brings the carry in at the top and the lowest bit out. -/
theorem rcrStep_bits (r : Word) (c : Bool) :
    (rotateCarryStep .rcr width (r, c)).2 = r.getLsbD 0 ∧
      ∀ i, (rotateCarryStep .rcr width (r, c)).1.getLsbD i =
        (r.getLsbD (i + 1) || (decide (i = width.wordBits - 1) && c)) := by
  have hle := width.wordBits_le
  have hpos := width.wordBits_pos
  refine ⟨rfl, fun i => ?_⟩
  show ((r >>> 1) ||| Word.shl (if c then 1 else 0) (width.bits - 1)).getLsbD i = _
  rw [BitVec.getLsbD_or, BitVec.getLsbD_ushiftRight, Word.shl, width.bits_sub_one_mod,
    BitVec.getLsbD_shiftLeft, getLsbD_carryBit, Nat.add_comm 1 i]
  congr 1
  by_cases htop : i = width.wordBits - 1
  · have hword : width.wordBits - 1 < 64 := by omega
    simp [htop, hword]
  · by_cases hlow : i < width.wordBits - 1
    · simp [htop, hlow]
    · have hne : i - (width.wordBits - 1) ≠ 0 := by omega
      simp [htop, hne]

/-- A word without bits above those that are held. -/
def Held (r : Word) : Prop := ∀ i, width.wordBits ≤ i → r.getLsbD i = false

variable {width}

theorem Held.step {s : Word × Bool} (h : Held width s.1) (kind : RotateCarryKind) :
    Held width (rotateCarryStep kind width s).1 := by
  intro i hi
  have hpos := width.wordBits_pos
  cases kind with
  | rcl =>
    show (_ &&& width.mask).getLsbD i = false
    rw [BitVec.getLsbD_and, width.getLsbD_mask, decide_eq_false (by omega), Bool.and_false]
  | rcr =>
    have htop : i ≠ width.wordBits - 1 := by omega
    rw [(rcrStep_bits width s.1 s.2).2, h (i + 1) (by omega), decide_eq_false htop]
    rfl

/-- One step rotates the carry and the value by one place. -/
theorem carried_step {s : Word × Bool} (h : Held width s.1) (kind : RotateCarryKind) :
    carried width.wordBits (rotateCarryStep kind width s) =
      rotated kind (carried width.wordBits s) 1 := by
  have hpos := width.wordBits_pos
  have hone : 1 % (width.wordBits + 1) = 1 := Nat.mod_eq_of_lt (by omega)
  refine BitVec.eq_of_getLsbD_eq fun i hi => ?_
  rw [getLsbD_carried _ (by omega)]
  cases kind with
  | rcl =>
    obtain ⟨hcarry, hbits⟩ := rclStep_bits width s.1 s.2
    rw [rotated, getLsbD_rotateLeft_mod _ _ hi, hone, Nat.add_sub_cancel,
      getLsbD_carried _ (Nat.lt_succ_iff.mp (Nat.mod_lt _ (by omega)))]
    cases i with
    | zero =>
      rw [if_neg (by omega), hbits 0 hpos, if_pos rfl, Nat.zero_add,
        Nat.mod_eq_of_lt (by omega), if_pos rfl]
    | succ i =>
      have hindex : (i + 1 + width.wordBits) % (width.wordBits + 1) = i := by
        rw [Nat.add_right_comm, Nat.add_assoc, Nat.add_mod_right, Nat.mod_eq_of_lt (by omega)]
      rw [hindex, if_neg (by omega : ¬ i = width.wordBits)]
      by_cases htop : i + 1 = width.wordBits
      · rw [if_pos htop, hcarry, ← htop, Nat.add_sub_cancel]
      · rw [if_neg htop, hbits (i + 1) (by omega), if_neg (Nat.succ_ne_zero i),
          Nat.add_sub_cancel]
  | rcr =>
    obtain ⟨hcarry, hbits⟩ := rcrStep_bits width s.1 s.2
    rw [rotated, getLsbD_rotateRight_mod _ _ hi,
      getLsbD_carried _ (Nat.lt_succ_iff.mp (Nat.mod_lt _ (by omega)))]
    by_cases hwrap : i = width.wordBits
    · rw [if_pos hwrap, hcarry, hwrap, Nat.mod_self, if_neg (by omega)]
    · have hindex : (i + 1) % (width.wordBits + 1) = i + 1 := Nat.mod_eq_of_lt (by omega)
      rw [if_neg hwrap, hindex, hbits]
      by_cases htop : i + 1 = width.wordBits
      · rw [if_pos htop, h (i + 1) (by omega), Bool.false_or, decide_eq_true (by omega),
          Bool.true_and]
      · rw [if_neg htop, decide_eq_false (by omega), Bool.false_and, Bool.or_false]

end Step

section Run

variable {width : OpWidth} (kind : RotateCarryKind)

theorem rotated_zero {n : Nat} (q : BitVec n) : rotated kind q 0 = q := by
  cases kind with
  | rcl => exact rotateLeft_zero q
  | rcr => exact rotateRight_zero q

theorem rotated_succ {n : Nat} (q : BitVec n) (k : Nat) :
    rotated kind (rotated kind q k) 1 = rotated kind q (k + 1) := by
  cases kind with
  | rcl => exact rotateLeft_rotateLeft q k 1
  | rcr => exact rotateRight_rotateRight q k 1

theorem carried_steps {s : Word × Bool} (h : Held width s.1) (k : Nat) :
    Held width ((rotateCarryStep kind width)^[k] s).1 ∧
      carried width.wordBits ((rotateCarryStep kind width)^[k] s) =
        rotated kind (carried width.wordBits s) k := by
  induction k with
  | zero => exact ⟨h, (rotated_zero kind _).symm⟩
  | succ k ih =>
    obtain ⟨hheld, hcarried⟩ := ih
    rw [Function.iterate_succ_apply']
    exact ⟨hheld.step kind, by rw [carried_step hheld, hcarried, rotated_succ]⟩

theorem held_and_mask (r : Word) : Held width (r &&& width.mask) := by
  intro i hi
  rw [BitVec.getLsbD_and, width.getLsbD_mask, decide_eq_false (by omega), Bool.and_false]

theorem carried_and_mask (r : Word) (c : Bool) :
    carried width.wordBits (r &&& width.mask, c) = carried width.wordBits (r, c) := by
  refine BitVec.eq_of_getLsbD_eq fun i hi => ?_
  rw [getLsbD_carried _ (by omega), getLsbD_carried _ (by omega)]
  by_cases htop : i = width.wordBits
  · rw [if_pos htop, if_pos htop]
  · rw [if_neg htop, if_neg htop, BitVec.getLsbD_and, width.getLsbD_mask,
      decide_eq_true (by omega), Bool.and_true]

theorem carried_inj {s t : Word × Bool} (hs : Held width s.1) (ht : Held width t.1)
    (h : carried width.wordBits s = carried width.wordBits t) : s = t := by
  have hbit (i : Nat) (hi : i ≤ width.wordBits) : (if i = width.wordBits then s.2 else s.1.getLsbD i) =
      if i = width.wordBits then t.2 else t.1.getLsbD i := by
    rw [← getLsbD_carried s hi, h, getLsbD_carried t hi]
  refine Prod.ext (BitVec.eq_of_getLsbD_eq fun i _ => ?_) ?_
  · by_cases hi : i < width.wordBits
    · have hlow := hbit i (by omega)
      rwa [if_neg (by omega), if_neg (by omega)] at hlow
    · rw [hs i (by omega), ht i (by omega)]
  · have htop := hbit width.wordBits (Nat.le_refl _)
    rwa [if_pos rfl, if_pos rfl] at htop

/-- The number of places by which an instruction rotates. -/
def places (width : OpWidth) (count : Word) : Nat :=
  (count &&& rotateCountMask width).toNat % (width.bits + 1)

theorem x86RotateCarry_spec (width : OpWidth) (val count : Word) (c : Bool) :
    let out := x86RotateCarry kind val count c width
    Held width out.1 ∧
      carried width.wordBits (out.1, out.2.1) =
        rotated kind (carried width.wordBits (val, c)) (places width count) ∧
      out.2.2 = places width count := by
  obtain ⟨hheld, hcarried⟩ := carried_steps kind (s := (val &&& width.mask, c))
    (held_and_mask val) (places width count)
  refine ⟨held_and_mask _, ?_, rfl⟩
  show carried width.wordBits (_ &&& width.mask, _) = _
  rw [carried_and_mask, ← carried_and_mask (r := val)]
  exact hcarried

end Run

/-- RCL and RCR rotate the carry and the held bits of the value, and RCR undoes RCL. -/
theorem x86RotateCarry_rotates (width : OpWidth) (val count : Word) (c : Bool) :
    (∀ kind,
      let out := x86RotateCarry kind val count c width
      Held width out.1 ∧
        carried width.wordBits (out.1, out.2.1) =
          rotated kind (carried width.wordBits (val, c)) (places width count) ∧
        out.2.2 = places width count) ∧
      let out := x86RotateCarry .rcl val count c width
      x86RotateCarry .rcr out.1 count out.2.1 width =
        (val &&& width.mask, c, places width count) := by
  refine ⟨fun kind => x86RotateCarry_spec kind width val count c, ?_⟩
  obtain ⟨_, hleft, _⟩ := x86RotateCarry_spec .rcl width val count c
  generalize x86RotateCarry .rcl val count c width = out at hleft ⊢
  obtain ⟨hheld, hright, hplaces⟩ := x86RotateCarry_spec .rcr width out.1 count out.2.1
  have hback : carried width.wordBits ((x86RotateCarry .rcr out.1 count out.2.1 width).1,
      (x86RotateCarry .rcr out.1 count out.2.1 width).2.1) =
        carried width.wordBits (val &&& width.mask, c) := by
    rw [hright, hleft, carried_and_mask]
    exact rotateRight_rotateLeft _ _
  have hpair := carried_inj hheld (held_and_mask val) hback
  rw [Prod.mk.injEq] at hpair
  exact Prod.ext hpair.1 (Prod.ext hpair.2 hplaces)

/-- At 128 bits the bit that leaves the word goes to the carry. -/
theorem x86Rcl_w128_not_rotation :
    carried 128 ((x86RotateCarry .rcl 0x8000000000000000#64 1#64 false .w128).1,
        (x86RotateCarry .rcl 0x8000000000000000#64 1#64 false .w128).2.1) ≠
      rotated .rcl (carried 128 (0x8000000000000000#64, false)) (places .w128 1#64) := by
  decide

end Interpret

end Rax.Smir

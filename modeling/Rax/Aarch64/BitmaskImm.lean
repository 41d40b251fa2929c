import Rax.Lib.Repeat
import Rax.Lib.Rotate
import Rax.Smir.Types

/-!
# Logical immediates of AArch64

`logical_bitmask_imm` of the lowerer searches the fields N, immr and imms of a constant; the
processor's `decode_bitmask` and the disassembler's `decode_bitmask_imm` compute the constant of
given fields. The three build an element, a run of ones that is rotated, and repeat it. They are
compared by the bits of the words.
-/

namespace Rax.Aarch64

open Smir

/-! ## The search -/

inductive LowerError
  | unsupportedOp (op : String)
  deriving DecidableEq, Repr

def widthName : OpWidth → String
  | .w8 => "W8"
  | .w16 => "W16"
  | .w32 => "W32"
  | .w64 => "W64"
  | .w128 => "W128"

def hexDigits (v : Word) : String := "0x" ++ String.ofList (Nat.toDigits 16 v.toNat)

/-- Number of bits, the constant in them, and the constant of ones. -/
def logicalImmValue (imm : Word) (width : OpWidth) : Except LowerError (Nat × Word × Word) :=
  match width with
  | .w32 => .ok (32, imm.low32, Word.lowMask 32)
  | .w64 => .ok (64, imm, BitVec.allOnes 64)
  | other => .error (.unsupportedOp ("AArch64 native logical immediate width " ++ widthName other))

def elementMask (size : Nat) : Word := if size = 64 then BitVec.allOnes 64 else Word.lowMask size

/-- A run of ones at the bottom of an element, rotated right. -/
def rotateElement (size : Nat) (run : Word) (immr : Nat) : Word :=
  if immr = 0 then run
  else (run >>> immr ||| run <<< (size - immr)) &&& elementMask size

def elementSizes : List Nat := [2, 4, 8, 16, 32, 64]

def immsField (size ones : Nat) : BitVec 32 :=
  let len := Word.trailingZeros (BitVec.ofNat 64 size)
  BitVec.ofNat 32 (ones - 1) ||| ((BitVec.allOnes 32 <<< (len + 1)) &&& 0x3F)

/-- The fields N, immr and imms of an element. -/
def fieldsOf (size ones immr : Nat) : BitVec 32 × BitVec 32 × BitVec 32 :=
  (if size = 64 then 1 else 0, BitVec.ofNat 32 immr, immsField size ones)

/-- The constant of an element. -/
def maskOf (bits size ones immr : Nat) : Word :=
  spread (rotateElement size (Word.lowMask ones) immr) (stepsFrom 0 bits size) 0

/-- The first element whose constant is `value`, in the order of the three loops. -/
def searchFields (bits : Nat) (value : Word) : Option (BitVec 32 × BitVec 32 × BitVec 32) :=
  (elementSizes.takeWhile (· ≤ bits)).findSome? fun size =>
    (List.range' 1 (size - 1)).findSome? fun ones =>
      (List.range size).findSome? fun immr =>
        if maskOf bits size ones immr = value then some (fieldsOf size ones immr) else none

def logicalBitmaskImm (imm : Word) (width : OpWidth) :
    Except LowerError (BitVec 32 × BitVec 32 × BitVec 32) := do
  let (bits, value, allOnes) ← logicalImmValue imm width
  let found := if value ≠ 0 ∧ value ≠ allOnes then searchFields bits value else none
  match found with
  | some fields => pure fields
  | none => throw (.unsupportedOp ("AArch64 native logical immediate " ++ hexDigits value ++
      " for " ++ widthName width))

/-! ## The processor's decoder -/

inductive ArmError
  | undefinedInstruction (raw : BitVec 32)
  deriving DecidableEq, Repr

/-- The logarithm of the element's size. -/
def bitmaskLen (n : Bool) (imms : BitVec 32) : Except ArmError Nat :=
  if n then .ok 6
  else
    let notImms := ~~~imms &&& 0x3F
    if notImms = 0 then .error (.undefinedInstruction 0)
    else
      -- the leading zeros of 32 bits
      let pos := 31 - (Word.leadingZeros (notImms.setWidth 64) - 32)
      if 5 < pos then .error (.undefinedInstruction 0) else .ok pos

/-- The constant of fields with a known size of the element. -/
def decodeBitmaskAt (len : Nat) (imms immr : BitVec 32) (is64bit : Bool) : Except ArmError Word :=
  if len < 1 ∨ 6 < len then .error (.undefinedInstruction 0)
  else
    let levels := 1#32 <<< len - 1
    let s := imms &&& levels
    let r := (immr &&& levels).toNat
    let esize := 2 ^ len
    if s = levels then .error (.undefinedInstruction 0)
    else
      let welem := if 64 ≤ s.toNat + 1 then BitVec.allOnes 64 else Word.lowMask (s.toNat + 1)
      let rotated := rotateElement esize welem r
      let result := spread rotated ((List.range (64 / esize)).map (· * esize)) 0
      .ok (if is64bit then result else Word.low32 result)

def decodeBitmask (n : Bool) (imms immr : BitVec 32) (is64bit : Bool) : Except ArmError Word := do
  let len ← bitmaskLen n imms
  decodeBitmaskAt len imms immr is64bit

/-! ## The disassembler's decoder -/

def bitmaskImmLen (n imms : BitVec 8) : Option Nat :=
  if n ≠ 0 then some 6
  else
    let notImms := ~~~imms &&& 0x3F
    if notImms = 0 then none else [5, 4, 3, 2, 1, 0].find? fun i => (notImms >>> i) &&& 1 = 1

/-- A run of ones rotated inside an element. -/
def rotatePattern (esize : Nat) (welem : Word) (r : Nat) : Word :=
  if esize = 64 then welem.rotateRight r
  else if r = 0 then welem
  else (welem >>> r ||| welem <<< (esize - r)) &&& Word.lowMask esize

/-- The constant of fields with a known size of the element. -/
def decodeBitmaskImmAt (len : Nat) (imms immr : BitVec 8) (is64bit : Bool) : Option Word :=
  if len < 1 then none
  else
    let levels := Word.lowMask len
    let s := imms.setWidth 64 &&& levels
    let r := (immr.setWidth 64 &&& levels).toNat
    let esize := 2 ^ len
    if s = levels then none
    else
      let pattern := rotatePattern esize (Word.lowMask (s.toNat + 1)) r
      let result := spread pattern (stepsFrom esize 64 esize) pattern
      some (if is64bit then result else Word.low32 result)

def decodeBitmaskImm (n imms immr : BitVec 8) (is64bit : Bool) : Option Word := do
  let len ← bitmaskImmLen n imms
  decodeBitmaskImmAt len imms immr is64bit

/-! ## Bits of the elements -/

/-- The bits of a rotated run of ones. -/
theorem getLsbD_rotateElement {size ones immr : Nat} (hsize : size ≤ 64) (hones : ones < size)
    (himmr : immr < size) (j : Nat) :
    (rotateElement size (Word.lowMask ones) immr).getLsbD j =
      (decide (j < size) && rotatedRun size ones immr j) := by
  have hmask : (elementMask size).getLsbD j = decide (j < size) := by
    unfold elementMask
    split
    · rename_i h
      rw [BitVec.getLsbD_allOnes, h]
    · exact Word.getLsbD_lowMask (by omega) j
  have hrun := Word.getLsbD_lowMask (show ones < 64 by omega)
  unfold rotateElement rotatedRun
  split
  · rename_i hzero
    subst hzero
    rw [hrun, Nat.add_zero, Bool.eq_iff_iff, Bool.and_eq_true]
    simp only [decide_eq_true_iff]
    constructor
    · intro hj
      rw [Nat.mod_eq_of_lt (by omega)]
      omega
    · rintro ⟨hj, hlt⟩
      rwa [Nat.mod_eq_of_lt hj] at hlt
  · rw [BitVec.getLsbD_and, BitVec.getLsbD_or, BitVec.getLsbD_ushiftRight,
      BitVec.getLsbD_shiftLeft, hmask, hrun, hrun, Bool.and_comm, Bool.eq_iff_iff]
    by_cases hj : j < size
    · have hmod : (j + immr) % size = if j + immr < size then j + immr else j + immr - size := by
        split
        · exact Nat.mod_eq_of_lt ‹_›
        · rw [Nat.mod_eq_sub_mod (by omega), Nat.mod_eq_of_lt (by omega)]
      simp only [hj, hmod, decide_true, Bool.true_and, Bool.or_eq_true, Bool.and_eq_true,
        Bool.not_eq_true', decide_eq_true_iff, decide_eq_false_iff_not]
      split <;> omega
    · simp [hj]

theorem size_dvd_bits {size : Nat} (hsize : size ∈ elementSizes) :
    0 < size ∧ size ∣ 64 ∧ (size ≤ 32 → size ∣ 32) := by
  revert size
  decide

theorem getLsbD_spread_element {size ones immr limit : Nat} {positions : List Nat}
    (hsize : size ≤ 64) (hones : ones < size) (himmr : immr < size) (hlimit : size ∣ limit)
    (hpos : ∀ pos, pos ∈ positions ↔ size ∣ pos ∧ pos < limit) {i : Nat} (hi : i < 64) :
    (spread (rotateElement size (Word.lowMask ones) immr) positions 0).getLsbD i =
      (decide (i < limit) && rotatedRun size ones immr (i % size)) := by
  have hbits := getLsbD_rotateElement hsize hones himmr
  rw [getLsbD_spread_multiples (fun j hj => ?_) hlimit hpos hi, hbits,
    decide_eq_true (Nat.mod_lt i (by omega)), Bool.true_and]
  rw [hbits, decide_eq_false (Nat.not_lt.mpr hj), Bool.false_and]

theorem mem_stepsFrom_zero {size limit pos : Nat} (hsize : 0 < size) :
    pos ∈ stepsFrom 0 limit size ↔ size ∣ pos ∧ pos < limit := by
  rw [mem_stepsFrom hsize]
  constructor
  · rintro ⟨k, rfl, hlt⟩
    exact ⟨⟨k, Nat.zero_add _⟩, hlt⟩
  · rintro ⟨⟨k, rfl⟩, hlt⟩
    exact ⟨k, (Nat.zero_add _).symm, hlt⟩

theorem getLsbD_maskOf {bits size ones immr : Nat} (hsize : size ≤ 64) (hones : ones < size)
    (himmr : immr < size) (hbits : size ∣ bits) {i : Nat} (hi : i < 64) :
    (maskOf bits size ones immr).getLsbD i =
      (decide (i < bits) && rotatedRun size ones immr (i % size)) :=
  getLsbD_spread_element hsize hones himmr hbits
    (fun _ => mem_stepsFrom_zero (by omega)) hi

/-! ## Decoding the fields -/

def elementLens : List Nat := [1, 2, 3, 4, 5, 6]

theorem exists_len {size : Nat} (h : size ∈ elementSizes) :
    ∃ len ∈ elementLens, size = 2 ^ len := by
  revert size
  decide

theorem immsField_bitmask : ∀ len ∈ elementLens, ∀ ones ∈ List.range' 1 (2 ^ len - 1),
    bitmaskLen (2 ^ len == 64) (immsField (2 ^ len) ones) = .ok len ∧
      immsField (2 ^ len) ones &&& (1#32 <<< len - 1) = BitVec.ofNat 32 (ones - 1) := by
  decide +kernel

theorem immsField_bitmaskImm : ∀ len ∈ elementLens, ∀ ones ∈ List.range' 1 (2 ^ len - 1),
    bitmaskImmLen (if 2 ^ len = 64 then 1 else 0) ((immsField (2 ^ len) ones).setWidth 8) =
        some len ∧
      ((immsField (2 ^ len) ones).setWidth 8).setWidth 64 &&& Word.lowMask len =
        BitVec.ofNat 64 (ones - 1) := by
  decide +kernel

theorem immrField_levels : ∀ len ∈ elementLens, ∀ immr ∈ List.range (2 ^ len),
    (BitVec.ofNat 32 immr &&& (1#32 <<< len - 1)).toNat = immr ∧
      (((BitVec.ofNat 32 immr).setWidth 8).setWidth 64 &&& Word.lowMask len).toNat = immr := by
  decide +kernel

theorem levels_ne : ∀ len ∈ elementLens, ∀ ones ∈ List.range' 1 (2 ^ len - 1),
    BitVec.ofNat 32 (ones - 1) ≠ 1#32 <<< len - 1 ∧
      BitVec.ofNat 64 (ones - 1) ≠ Word.lowMask len := by
  decide +kernel

theorem rotatePattern_eq {size immr : Nat} (himmr : immr < size) (run : Word) :
    rotatePattern size run immr = rotateElement size run immr := by
  unfold rotatePattern rotateElement elementMask
  split
  · rename_i h64
    subst h64
    split
    · rename_i hzero
      rw [hzero]
      exact rotateRight_zero run
    · rw [BitVec.and_allOnes, BitVec.rotateRight_def, Nat.mod_eq_of_lt himmr]
  · rfl

section Decoders

variable {len ones immr : Nat} (hlen : len ∈ elementLens) (hones : ones ∈ List.range' 1 (2 ^ len - 1))
  (himmr : immr ∈ List.range (2 ^ len))

include hlen hones

theorem ones_mem : 1 ≤ ones ∧ ones < 2 ^ len ∧ 2 ^ len ≤ 64 ∧ 1 ≤ len ∧ len ≤ 6 := by
  obtain ⟨k, hk, rfl⟩ := List.mem_range'.mp hones
  have hbound : ∀ len ∈ elementLens, 2 ≤ 2 ^ len ∧ 2 ^ len ≤ 64 ∧ 1 ≤ len ∧ len ≤ 6 := by decide
  have := hbound len hlen
  omega

include himmr

theorem decodeBitmask_fields (wide : Bool) :
    decodeBitmask (2 ^ len == 64) (immsField (2 ^ len) ones) (BitVec.ofNat 32 immr) wide =
      .ok (if wide then maskOf 64 (2 ^ len) ones immr
        else Word.low32 (maskOf 64 (2 ^ len) ones immr)) := by
  obtain ⟨hone, hlt, hsize, hlow, hhigh⟩ := ones_mem hlen hones
  obtain ⟨hread, himms⟩ := immsField_bitmask len hlen ones hones
  have hrot := (immrField_levels len hlen immr himmr).1
  have hne := (levels_ne len hlen ones hones).1
  have hs : (BitVec.ofNat 32 (ones - 1)).toNat + 1 = ones := by
    rw [BitVec.toNat_ofNat, Nat.mod_eq_of_lt (by omega)]
    omega
  have hpositions : ∀ len ∈ elementLens,
      (List.range (64 / 2 ^ len)).map (· * 2 ^ len) = stepsFrom 0 64 (2 ^ len) := by
    decide
  have hsmall : ¬(len < 1 ∨ 6 < len) := by omega
  have hshort : ¬64 ≤ ones := by omega
  unfold decodeBitmask
  rw [hread]
  show decodeBitmaskAt len _ _ _ = _
  unfold decodeBitmaskAt
  rw [if_neg hsmall]
  dsimp only
  rw [himms, if_neg hne, hrot, hs, if_neg hshort, hpositions len hlen]
  rfl

theorem decodeBitmaskImm_fields (wide : Bool) :
    decodeBitmaskImm (if 2 ^ len = 64 then 1 else 0) ((immsField (2 ^ len) ones).setWidth 8)
        ((BitVec.ofNat 32 immr).setWidth 8) wide =
      some (if wide then maskOf 64 (2 ^ len) ones immr
        else Word.low32 (maskOf 64 (2 ^ len) ones immr)) := by
  obtain ⟨hone, hlt, hsize, hlow, hhigh⟩ := ones_mem hlen hones
  obtain ⟨hread, himms⟩ := immsField_bitmaskImm len hlen ones hones
  have hrot := (immrField_levels len hlen immr himmr).2
  have hne := (levels_ne len hlen ones hones).2
  have hs : (BitVec.ofNat 64 (ones - 1)).toNat + 1 = ones := by
    rw [BitVec.toNat_ofNat, Nat.mod_eq_of_lt (by omega)]
    omega
  have hpositions : ∀ len ∈ elementLens,
      0 :: stepsFrom (2 ^ len) 64 (2 ^ len) = stepsFrom 0 64 (2 ^ len) := by
    decide
  unfold decodeBitmaskImm
  rw [hread]
  show decodeBitmaskImmAt len _ _ _ = _
  unfold decodeBitmaskImmAt
  rw [if_neg (Nat.not_lt.mpr hlow)]
  dsimp only
  rw [himms, if_neg hne, hrot, hs, rotatePattern_eq (List.mem_range.mp himmr), spread_self,
    hpositions len hlen]
  rfl

end Decoders

/-! ## Constants that have an encoding -/

def widthOf (wide : Bool) : OpWidth := if wide then .w64 else .w32

def bitsOf (wide : Bool) : Nat := if wide then 64 else 32

/-- The constant of 64 or 32 bits that an immediate stands for. -/
def constantOf (imm : Word) (wide : Bool) : Word := if wide then imm else imm.low32

def onesOf (wide : Bool) : Word := if wide then BitVec.allOnes 64 else Word.lowMask 32

/-- A repetition of an element that is a rotated run of ones. -/
def IsRepeatedRun (bits : Nat) (value : Word) : Prop :=
  ∃ size ∈ elementSizes, size ≤ bits ∧ ∃ ones rot, ∀ i < bits,
    value.getLsbD i = rotatedRun size ones rot (i % size)

def Encodable (value : Word) (wide : Bool) : Prop :=
  value ≠ 0 ∧ value ≠ onesOf wide ∧ IsRepeatedRun (bitsOf wide) value

/-- Fields are found for encodable constants only, and both decoders give the constant back. -/
def FindsFields (imm : Word) (wide : Bool) :
    Except LowerError (BitVec 32 × BitVec 32 × BitVec 32) → Prop
  | .ok (n, immr, imms) =>
    Encodable (constantOf imm wide) wide ∧
      decodeBitmask (n != 0) imms immr wide = .ok (constantOf imm wide) ∧
      decodeBitmaskImm (n.setWidth 8) (imms.setWidth 8) (immr.setWidth 8) wide =
        some (constantOf imm wide)
  | .error _ => ¬Encodable (constantOf imm wide) wide

section Search

variable {wide : Bool} {value : Word}

theorem mem_sizes_iff {size : Nat} : size ∈ elementSizes.takeWhile (· ≤ bitsOf wide) ↔
    size ∈ elementSizes ∧ size ≤ bitsOf wide := by
  cases wide with
  | true =>
    show size ∈ [2, 4, 8, 16, 32, 64] ↔ size ∈ [2, 4, 8, 16, 32, 64] ∧ size ≤ 64
    simp only [List.mem_cons, List.not_mem_nil, or_false]
    omega
  | false =>
    show size ∈ [2, 4, 8, 16, 32] ↔ size ∈ [2, 4, 8, 16, 32, 64] ∧ size ≤ 32
    simp only [List.mem_cons, List.not_mem_nil, or_false]
    omega

theorem getLsbD_onesOf {i : Nat} (hi : i < bitsOf wide) : (onesOf wide).getLsbD i = true := by
  cases wide with
  | true => exact (BitVec.getLsbD_allOnes).trans (decide_eq_true hi)
  | false => exact (Word.getLsbD_lowMask (by decide) i).trans (decide_eq_true hi)

theorem getLsbD_onesOf_of_ge {i : Nat} (hi : bitsOf wide ≤ i) :
    (onesOf wide).getLsbD i = false := by
  cases wide with
  | true => exact BitVec.getLsbD_of_ge _ _ hi
  | false => exact (Word.getLsbD_lowMask (by decide) i).trans (decide_eq_false (Nat.not_lt.mpr hi))

theorem getLsbD_constantOf_of_ge (imm : Word) {i : Nat} (hi : bitsOf wide ≤ i) :
    (constantOf imm wide).getLsbD i = false := by
  cases wide with
  | true => exact BitVec.getLsbD_of_ge _ _ hi
  | false =>
    have hlow : (0xFFFFFFFF : Word).getLsbD i = decide (i < 32) :=
      Word.getLsbD_lowMask (show 32 < 64 by decide) i
    show (imm &&& 0xFFFFFFFF : Word).getLsbD i = false
    have hout : ¬i < 32 := Nat.not_lt.mpr hi
    rw [BitVec.getLsbD_and, hlow, decide_eq_false hout, Bool.and_false]

/-- An element of the search whose constant is `value`. -/
structure IsElement (wide : Bool) (value : Word) (size ones immr : Nat) : Prop where
  size_mem : size ∈ elementSizes
  size_le : size ≤ bitsOf wide
  ones_mem : ones ∈ List.range' 1 (size - 1)
  immr_mem : immr ∈ List.range size
  mask_eq : maskOf (bitsOf wide) size ones immr = value

theorem searchFields_some {fields : BitVec 32 × BitVec 32 × BitVec 32}
    (h : searchFields (bitsOf wide) value = some fields) :
    ∃ size ones immr, IsElement wide value size ones immr ∧ fields = fieldsOf size ones immr := by
  obtain ⟨size, hsize, h⟩ := List.exists_of_findSome?_eq_some h
  obtain ⟨ones, hones, h⟩ := List.exists_of_findSome?_eq_some h
  obtain ⟨immr, himmr, h⟩ := List.exists_of_findSome?_eq_some h
  obtain ⟨hmem, hle⟩ := mem_sizes_iff.mp hsize
  split at h
  · rename_i hmask
    cases h
    exact ⟨size, ones, immr, ⟨hmem, hle, hones, himmr, hmask⟩, rfl⟩
  · cases h

theorem searchFields_none (h : searchFields (bitsOf wide) value = none) (size ones immr : Nat) :
    ¬IsElement wide value size ones immr := by
  intro helement
  have hnone := List.findSome?_eq_none_iff.mp h size
    (mem_sizes_iff.mpr ⟨helement.size_mem, helement.size_le⟩)
  have hnone := List.findSome?_eq_none_iff.mp hnone ones helement.ones_mem
  have hnone := List.findSome?_eq_none_iff.mp hnone immr helement.immr_mem
  rw [if_pos helement.mask_eq] at hnone
  cases hnone

namespace IsElement

variable {size ones immr : Nat}

theorem bounds (h : IsElement wide value size ones immr) :
    1 ≤ ones ∧ ones < size ∧ immr < size ∧ size ≤ 64 ∧ size ∣ bitsOf wide ∧ size ∣ 64 := by
  obtain ⟨hpos, h64, h32⟩ := size_dvd_bits h.size_mem
  obtain ⟨k, hk, hones⟩ := List.mem_range'.mp h.ones_mem
  have himmr := List.mem_range.mp h.immr_mem
  have hle := Nat.le_of_dvd (by decide) h64
  refine ⟨by omega, by omega, himmr, hle, ?_, h64⟩
  cases wide with
  | true => exact h64
  | false => exact h32 h.size_le

theorem getLsbD_value (h : IsElement wide value size ones immr) {i : Nat} (hi : i < 64) :
    value.getLsbD i = (decide (i < bitsOf wide) && rotatedRun size ones immr (i % size)) := by
  obtain ⟨-, hones, himmr, hsize, hbits, -⟩ := h.bounds
  rw [← h.mask_eq]
  exact getLsbD_maskOf hsize hones himmr hbits hi

/-- A nonempty run that does not fill the element is neither nothing nor everything. -/
theorem encodable (h : IsElement wide value size ones immr) : Encodable value wide := by
  obtain ⟨hone, hones, himmr, hsize, hbits, -⟩ := h.bounds
  have hbit : ∀ k < size, value.getLsbD ((k + (size - immr)) % size) = decide (k < ones) := by
    intro k hk
    have hin : (k + (size - immr)) % size < size := Nat.mod_lt _ (by omega)
    have hle := h.size_le
    rw [h.getLsbD_value (by omega), decide_eq_true (by omega), Bool.true_and, rotatedRun,
      Nat.mod_mod, Nat.mod_add_mod, show k + (size - immr) + immr = k + size by omega,
      Nat.add_mod_right, Nat.mod_eq_of_lt hk]
  refine ⟨?_, ?_, size, h.size_mem, h.size_le, ones, immr, fun i hi => ?_⟩
  · rintro rfl
    have hset := BitVec.getLsbD_zero.symm.trans (hbit 0 (by omega))
    rw [decide_eq_true (by omega)] at hset
    cases hset
  · rintro rfl
    have hclear := hbit ones hones
    have hin : (ones + (size - immr)) % size < size := Nat.mod_lt _ (by omega)
    have hle := h.size_le
    rw [decide_eq_false (Nat.lt_irrefl _), getLsbD_onesOf (by omega)] at hclear
    cases hclear
  · have hwide : bitsOf wide ≤ 64 := by cases wide <;> decide
    rw [h.getLsbD_value (by omega), decide_eq_true hi, Bool.true_and]

/-- Both decoders repeat the element over 64 bits and cut the result. -/
theorem decoded_eq (h : IsElement wide value size ones immr) :
    (if wide then maskOf 64 size ones immr else Word.low32 (maskOf 64 size ones immr)) = value := by
  obtain ⟨-, hones, himmr, hsize, -, h64⟩ := h.bounds
  refine BitVec.eq_of_getLsbD_eq fun i hi => ?_
  rw [h.getLsbD_value hi]
  have hmask := getLsbD_maskOf hsize hones himmr h64 hi
  rw [decide_eq_true hi, Bool.true_and] at hmask
  cases wide with
  | true =>
    rw [if_pos rfl, hmask]
    exact (congrArg (· && _) (decide_eq_true hi)).symm
  | false =>
    have hlow : (0xFFFFFFFF : Word).getLsbD i = decide (i < 32) :=
      Word.getLsbD_lowMask (show 32 < 64 by decide) i
    rw [if_neg Bool.false_ne_true, Word.low32, BitVec.getLsbD_and, hmask, hlow, Bool.and_comm]
    rfl

end IsElement

/-- The search covers all encodable constants. -/
theorem exists_isElement (hhigh : ∀ i, bitsOf wide ≤ i → value.getLsbD i = false)
    (h : Encodable value wide) : ∃ size ones immr, IsElement wide value size ones immr := by
  obtain ⟨hzero, hones, size, hmem, hle, ones, rot, hbits⟩ := h
  obtain ⟨hpos, h64, h32⟩ := size_dvd_bits hmem
  have hsize := Nat.le_of_dvd (by decide) h64
  have hdvd : size ∣ bitsOf wide := by
    cases wide with
    | true => exact h64
    | false => exact h32 hle
  have hnonempty : ones ≠ 0 := by
    rintro rfl
    refine hzero (BitVec.eq_of_getLsbD_eq fun i _ => Eq.trans ?_ BitVec.getLsbD_zero.symm)
    by_cases hi : i < bitsOf wide
    · exact (hbits i hi).trans (decide_eq_false (Nat.not_lt_zero _))
    · exact hhigh i (Nat.not_lt.mp hi)
  have hpartial : ones < size := by
    by_contra hfull
    refine hones (BitVec.eq_of_getLsbD_eq fun i _ => ?_)
    by_cases hi : i < bitsOf wide
    · rw [hbits i hi, getLsbD_onesOf hi]
      exact decide_eq_true ((Nat.mod_lt _ hpos).trans_le (Nat.not_lt.mp hfull))
    · rw [hhigh i (Nat.not_lt.mp hi), getLsbD_onesOf_of_ge (Nat.not_lt.mp hi)]
  refine ⟨size, ones, rot % size, hmem, hle, ?_, List.mem_range.mpr (Nat.mod_lt _ hpos), ?_⟩
  · exact List.mem_range'.mpr ⟨ones - 1, by omega, by omega⟩
  · refine BitVec.eq_of_getLsbD_eq fun i hi => ?_
    rw [getLsbD_maskOf hsize hpartial (Nat.mod_lt _ hpos) hdvd hi, rotatedRun_mod]
    by_cases hlow : i < bitsOf wide
    · rw [decide_eq_true hlow, Bool.true_and, hbits i hlow]
    · rw [decide_eq_false hlow, Bool.false_and, hhigh i (Nat.not_lt.mp hlow)]

end Search

theorem logicalBitmaskImm_finds (imm : Word) (wide : Bool) :
    FindsFields imm wide (logicalBitmaskImm imm (widthOf wide)) := by
  have hsearch : logicalBitmaskImm imm (widthOf wide) =
      match (if constantOf imm wide ≠ 0 ∧ constantOf imm wide ≠ onesOf wide then
        searchFields (bitsOf wide) (constantOf imm wide) else none) with
      | some fields => .ok fields
      | none => .error (.unsupportedOp ("AArch64 native logical immediate " ++
          hexDigits (constantOf imm wide) ++ " for " ++ widthName (widthOf wide))) := by
    cases wide <;> rfl
  rw [hsearch]
  split
  · rename_i fields hfound
    split at hfound
    · obtain ⟨size, ones, immr, helement, rfl⟩ := searchFields_some hfound
      obtain ⟨len, hlen, rfl⟩ := exists_len helement.size_mem
      have hcpu := decodeBitmask_fields hlen helement.ones_mem helement.immr_mem wide
      have hdis := decodeBitmaskImm_fields hlen helement.ones_mem helement.immr_mem wide
      rw [helement.decoded_eq] at hcpu hdis
      refine ⟨helement.encodable, Eq.trans ?_ hcpu, Eq.trans ?_ hdis⟩
      · congr 1
        by_cases h64 : 2 ^ len = 64 <;> simp [h64]
      · congr 1
        by_cases h64 : 2 ^ len = 64 <;> simp [h64]
    · cases hfound
  · rename_i hfound
    rintro ⟨hzero, hones, hrun⟩
    obtain ⟨size, ones, immr, helement⟩ := exists_isElement
      (fun i hi => getLsbD_constantOf_of_ge imm hi) ⟨hzero, hones, hrun⟩
    rw [if_pos ⟨hzero, hones⟩] at hfound
    exact searchFields_none hfound size ones immr helement

end Rax.Aarch64

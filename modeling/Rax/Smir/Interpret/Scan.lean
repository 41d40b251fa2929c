import Rax.Smir.Interpret.Bit
import Rax.Smir.Interpret.Width

/-!
# Bit scans

What `Bsf` and `Bsr` return. Both count zeros of the whole word; the position of the highest bit
is then taken from the width.
-/

namespace Rax.Word

theorem trailingZeros_spec {v : Word} {k : Nat} (hk : v.getLsbD k = true) :
    v.getLsbD v.trailingZeros = true ∧ ∀ j, v.getLsbD j = true → v.trailingZeros ≤ j := by
  have hlt : k < 64 := BitVec.lt_of_getLsbD hk
  cases hfind : (List.range 64).find? v.bit with
  | none =>
    have hall := List.find?_eq_none.mp hfind k (List.mem_range.mpr hlt)
    exact absurd hk hall
  | some i =>
    obtain ⟨hbit, -, hbelow⟩ := List.find?_range_eq_some.mp hfind
    have hcount : v.trailingZeros = i := by rw [trailingZeros, hfind]; rfl
    rw [hcount]
    refine ⟨hbit, fun j hj => Nat.le_of_not_lt fun hji => ?_⟩
    have hclear : v.bit j = false := by simpa using hbelow j hji
    exact absurd (hj.symm.trans hclear) (by decide)

theorem leadingZeros_spec {v : Word} {k : Nat} (hk : v.getLsbD k = true) :
    v.leadingZeros < 64 ∧ v.getLsbD (63 - v.leadingZeros) = true ∧
      ∀ j, v.getLsbD j = true → j ≤ 63 - v.leadingZeros := by
  have hlt : k < 64 := BitVec.lt_of_getLsbD hk
  cases hfind : (List.range 64).find? fun i => v.bit (63 - i) with
  | none =>
    have hall := List.find?_eq_none.mp hfind (63 - k) (List.mem_range.mpr (by omega))
    have hindex : 63 - (63 - k) = k := by omega
    rw [hindex] at hall
    exact absurd hk hall
  | some i =>
    obtain ⟨hbit, hmem, hbelow⟩ := List.find?_range_eq_some.mp hfind
    have hcount : v.leadingZeros = i := by rw [leadingZeros, hfind]; rfl
    rw [hcount]
    refine ⟨List.mem_range.mp hmem, hbit, fun j hj => Nat.le_of_not_lt fun hji => ?_⟩
    have hj64 : j < 64 := BitVec.lt_of_getLsbD hj
    have hclear : v.bit (63 - (63 - j)) = false := by simpa using hbelow (63 - j) (by omega)
    have hindex : 63 - (63 - j) = j := by omega
    rw [hindex] at hclear
    exact absurd (hj.symm.trans hclear) (by decide)

end Rax.Word

namespace Rax.Smir.Interpret

/-- The position that a scan of the low `n` bits is to find: the least or the greatest set bit. -/
structure Finds (kind : ScanKind) (n : Nat) (v : Word) (i : Nat) : Prop where
  inside : i < n
  isSet : v.getLsbD i = true
  first : ∀ j < n, v.getLsbD j = true →
    match kind with
    | .bsf => i ≤ j
    | .bsr => j ≤ i

/-- A scan writes the position of the bit it is to find, if the source has one at the width, and an
operation that updates flags sets ZF exactly for a source without one. -/
structure ScansExactly (kind : ScanKind) (dst : VReg) (src : Word) (width : OpWidth)
    (flags : FlagUpdate) : Prop where
  position : src &&& width.mask ≠ 0 → ∃ i v, Finds kind width.bits src i ∧
    (scan kind dst src width flags).writes = [.toGpr dst width v] ∧
    v &&& width.mask = BitVec.ofNat 64 i
  zero : flags.updatesAny = true → ∀ fs : FlagState,
    (((scan kind dst src width flags).flags.apply fs).get .zf = true ↔ src &&& width.mask = 0)

section

variable {kind : ScanKind} {src : Word} {width : OpWidth}

theorem getLsbD_and_mask_iff {j : Nat} :
    (src &&& width.mask).getLsbD j = true ↔ j < width.bits ∧ src.getLsbD j = true := by
  rw [BitVec.getLsbD_and, width.getLsbD_mask, Bool.and_eq_true, decide_eq_true_eq]
  constructor
  · rintro ⟨hbit, hlt⟩
    exact ⟨Nat.lt_of_lt_of_le hlt (Nat.min_le_left _ _), hbit⟩
  · rintro ⟨hlt, hbit⟩
    exact ⟨hbit, Nat.lt_min.mpr ⟨hlt, BitVec.lt_of_getLsbD hbit⟩⟩

theorem exists_getLsbD {v : Word} (h : v ≠ 0) : ∃ k, v.getLsbD k = true := by
  by_contra hnone
  refine h (BitVec.eq_of_getLsbD_eq fun i _ => ?_)
  refine Eq.trans ?_ BitVec.getLsbD_zero.symm
  exact Bool.eq_false_iff.mpr fun hbit => hnone ⟨i, hbit⟩

theorem finds_trailingZeros (h : src &&& width.mask ≠ 0) :
    Finds .bsf width.bits src (src &&& width.mask).trailingZeros := by
  obtain ⟨k, hk⟩ := exists_getLsbD h
  obtain ⟨hbit, hleast⟩ := Word.trailingZeros_spec hk
  obtain ⟨hlt, hset⟩ := getLsbD_and_mask_iff.mp hbit
  exact ⟨hlt, hset, fun j hj hsrc => hleast j (getLsbD_and_mask_iff.mpr ⟨hj, hsrc⟩)⟩

theorem finds_leadingZeros (h : src &&& width.mask ≠ 0) :
    (src &&& width.mask).leadingZeros < 64 ∧
      Finds .bsr width.bits src (63 - (src &&& width.mask).leadingZeros) := by
  obtain ⟨k, hk⟩ := exists_getLsbD h
  obtain ⟨hcount, hbit, hgreatest⟩ := Word.leadingZeros_spec hk
  obtain ⟨hlt, hset⟩ := getLsbD_and_mask_iff.mp hbit
  exact ⟨hcount, hlt, hset, fun j hj hsrc => hgreatest j (getLsbD_and_mask_iff.mpr ⟨hj, hsrc⟩)⟩

theorem Finds.unique {n i j : Nat} (hi : Finds kind n src i) (hj : Finds kind n src j) : i = j := by
  have hij := hi.first j hj.inside hj.isSet
  have hji := hj.first i hi.inside hi.isSet
  cases kind with
  | bsf => exact Nat.le_antisymm hij hji
  | bsr => exact Nat.le_antisymm hji hij

/-- The value that `Bsr` computes, for a source that is not zero at the width. -/
def bsrValue (width : OpWidth) (count : Nat) : Word :=
  (BitVec.ofNat 32 (width.bits - 1) - BitVec.ofNat 32 count).setWidth 64

theorem toNat_bsrValue {count : Nat} (hcount : count < 64) :
    (bsrValue width count).toNat = (2 ^ 32 - count + (width.bits - 1)) % 2 ^ 32 := by
  have hbits : width.bits ≤ 128 := by cases width <;> decide
  rw [bsrValue, BitVec.toNat_setWidth, BitVec.toNat_sub, BitVec.toNat_ofNat, BitVec.toNat_ofNat,
    Nat.mod_eq_of_lt (a := count) (by omega), Nat.mod_eq_of_lt (a := width.bits - 1) (by omega)]
  omega

/-- Counting from the whole word gives the position only where the width is the whole word. -/
theorem bsrValue_eq_iff {count : Nat} (hcount : count < 64) (hinside : 63 - count < width.bits) :
    bsrValue width count &&& width.mask = BitVec.ofNat 64 (63 - count) ↔ width = .w64 := by
  rw [← BitVec.toNat_inj, OpWidth.toNat_and_mask, toNat_bsrValue hcount, BitVec.toNat_ofNat]
  cases width <;> simp only [OpWidth.bits, OpWidth.wordBits, Nat.min_def, Nat.reduceLeDiff,
    reduceIte, reduceCtorEq, iff_false, iff_true] at hinside ⊢ <;> omega

end

section

variable (kind : ScanKind) (dst : VReg) (src : Word) (width : OpWidth) (flags : FlagUpdate)

theorem scan_zf (hflags : flags.updatesAny = true) (fs : FlagState) :
    ((scan kind dst src width flags).flags.apply fs).get .zf = true ↔ src &&& width.mask = 0 := by
  have hact : (scan kind dst src width flags).flags.written .zf =
      some (src &&& width.mask == 0) := by
    simp only [scan, FlagAct.onUpdate, if_pos hflags, FlagAct.written]
  rw [FlagAct.get_apply, hact, Option.getD_some, beq_iff_eq]

theorem scan_bsf_writes (h : src &&& width.mask ≠ 0) :
    (scan .bsf dst src width flags).writes =
      [.toGpr dst width (BitVec.ofNat 64 (src &&& width.mask).trailingZeros)] := by
  simp only [scan, if_neg h]

theorem scan_bsr_writes (h : src &&& width.mask ≠ 0) :
    (scan .bsr dst src width flags).writes =
      [.toGpr dst width (bsrValue width (src &&& width.mask).leadingZeros)] := by
  simp only [scan, if_neg h, bsrValue]

/-- `Bsf` is exact; `Bsr` is exact for 64-bit operands and for a zero source. -/
theorem scansExactly_iff :
    ScansExactly kind dst src width flags ↔
      kind = .bsf ∨ width = .w64 ∨ src &&& width.mask = 0 := by
  have hzf := scan_zf kind dst src width flags
  by_cases hzero : src &&& width.mask = 0
  · refine iff_of_true ⟨fun h => absurd hzero h, hzf⟩ (.inr (.inr hzero))
  · cases kind with
    | bsf =>
      refine iff_of_true ⟨fun h => ?_, hzf⟩ (.inl rfl)
      have hfinds := finds_trailingZeros h
      have hbound : (src &&& width.mask).trailingZeros < width.wordBits :=
        Nat.lt_min.mpr ⟨hfinds.inside, BitVec.lt_of_getLsbD hfinds.isSet⟩
      refine ⟨_, _, hfinds, scan_bsf_writes dst src width flags h, OpWidth.and_mask_of_lt ?_⟩
      exact Nat.lt_of_le_of_lt (Nat.mod_le _ _) (hbound.trans Nat.lt_two_pow_self)
    | bsr =>
      obtain ⟨hcount, hfinds⟩ := finds_leadingZeros hzero
      have hvalue := bsrValue_eq_iff hcount hfinds.inside
      have hwrites := scan_bsr_writes dst src width flags hzero
      constructor
      · intro h
        obtain ⟨i, v, hi, hv, hmasked⟩ := h.position hzero
        have hvalues : bsrValue width (src &&& width.mask).leadingZeros = v :=
          congrArg RegWrite.value (List.cons.inj (hwrites.symm.trans hv)).1
        rw [← hvalues, hi.unique hfinds] at hmasked
        exact .inr (.inl (hvalue.mp hmasked))
      · rintro (hkind | hwidth | hsrc)
        · cases hkind
        · exact ⟨fun _ => ⟨_, _, hfinds, hwrites, hvalue.mpr hwidth⟩, hzf⟩
        · exact absurd hsrc hzero

/-- `Bsr` of the byte 1 writes 0xC8. -/
theorem bsr_byte_misses : ¬ ScansExactly .bsr .rax 1#64 .w8 .all := by
  intro h
  obtain ⟨i, v, hi, hv, hmasked⟩ := h.position (by decide)
  have hwrites : (scan .bsr .rax 1#64 .w8 .all).writes = [.toGpr .rax .w8 0xFFFFFFC8#64] := by
    decide
  have hvalue : 0xFFFFFFC8#64 = v :=
    congrArg RegWrite.value (List.cons.inj (hwrites.symm.trans hv)).1
  have hindex : 0xC8 = i % 2 ^ 64 := by
    rw [← BitVec.toNat_ofNat, ← hmasked, ← hvalue]
    rfl
  have hinside : i < 8 := hi.inside
  omega

end

end Rax.Smir.Interpret

import Rax.Aarch64.TableAttributes

/-!
# Indices and leaves of the table walk

A walk should index each table with the address bits of its level inside the input size, and end
at page descriptors or at blocks where the granule has them. The source takes all bits of a level,
so that an address of the upper range, whose bits above the input size are ones, leaves a start
table that resolves fewer bits; and it ends the walk at any valid descriptor it does not follow.
The addresses of one block or page go to one frame in any case.
-/

namespace Rax.Aarch64

open MmuConfig

/-- The address bits of a level that lie inside the input size. -/
def indexBits (va : Word) (inputSize level : Nat) (g : TranslationGranule) : Nat :=
  va.toNat % 2 ^ inputSize / 2 ^ g.levelShift level % 2 ^ g.bitsPerLevel

/-- The levels with block descriptors. -/
def TranslationGranule.hasBlocks : TranslationGranule → Nat → Bool
  | granule4KB, level => level == 1 || level == 2
  | granule16KB, level => level == 2
  | granule64KB, level => level == 2

/-- A page descriptor at level 3, or a block descriptor at a level that has them. -/
def PageTableEntry.isLeaf (e : PageTableEntry) (g : TranslationGranule) (level : Nat) : Bool :=
  if level = 3 then e.isTable else e.isValid && !e.isTable && g.hasBlocks level

/-- The level at which a walk starts. -/
def startLevel (g : TranslationGranule) (tsz : Nat) : Nat := 3 - levelsBelow g tsz

/-- The entry for an address in the table of a level. -/
def entryAt (memory : Word → Option Word) (va : Word) (inputSize : Nat) (g : TranslationGranule)
    (level : Nat) (tableAddr : Word) : Option PageTableEntry :=
  (memory (tableAddr + BitVec.ofNat 64 (indexBits va inputSize level g) * 8)).map (⟨·⟩)

/-- On the path of an address the tables hold a valid descriptor that is no leaf where it stands
and cannot be followed, with `n` levels below the current one. -/
def holdsReserved (memory : Word → Option Word) (va : Word) (inputSize : Nat)
    (g : TranslationGranule) : Nat → Word → Bool
  | 0, tableAddr =>
    match entryAt memory va inputSize g 3 tableAddr with
    | none => false
    | some e => e.isValid && !e.isTable
  | n + 1, tableAddr =>
    match entryAt memory va inputSize g (3 - (n + 1)) tableAddr with
    | none => false
    | some e =>
      if e.isTable then
        holdsReserved memory va inputSize g n (e.outputAddress g (3 - (n + 1)))
      else e.isValid && !g.hasBlocks (3 - (n + 1))

namespace Mmu

variable (mmu : Mmu) (memory : Word → Option Word) (va : Word)

/-- The walk of an address, with the table, the size and the granule that the address selects. -/
structure WalkExact (tsz : Nat) (g : TranslationGranule) : Prop where
  indices : ∀ level, startLevel g tsz ≤ level → level ≤ 3 →
    (levelIndex va level g).toNat = indexBits va (64 - tsz) level g
  start : (levelIndex va (startLevel g tsz) g).toNat <
    2 ^ (64 - tsz - g.levelShift (startLevel g tsz))
  leaf : ∀ p, mmu.path va memory = .ok p → p.leaf.isLeaf g p.level = true
  frame : ∀ p access d, mmu.path va memory = .ok p → mmu.translate va memory access = .ok d →
    ∀ va' : Word, va' >>> g.levelShift p.level = va >>> g.levelShift p.level →
      ∃ d', mmu.translate va' memory access = .ok d' ∧
        d'.pa >>> g.levelShift p.level = d.pa >>> g.levelShift p.level ∧
        d'.pa.toNat % 2 ^ g.levelShift p.level = va'.toNat % 2 ^ g.levelShift p.level

/-- Every walk of an enabled unit is exact. -/
def WalksExactly : Prop :=
  mmu.config.enabled = true → ∀ ttbr tsz g,
    mmu.config.selectTtbr va = .ok (ttbr, tsz, g) → mmu.WalkExact memory va tsz g

/-- The address is in the lower range, or the start table of its range resolves all bits of a
level; and no reserved descriptor is on its path. -/
def Regular : Prop :=
  mmu.config.enabled = true → ∀ ttbr tsz g,
    mmu.config.selectTtbr va = .ok (ttbr, tsz, g) →
      (va < 1 <<< (64 - mmu.config.t0sz) ∨
        (64 - tsz - g.pageOffsetBits) % g.bitsPerLevel = 0) ∧
      holdsReserved memory va (64 - tsz) g (levelsBelow g tsz)
        (ttbr &&& 0x0000FFFFFFFFF000) = false

end Mmu

/-! ## Sizes -/

variable {mmu : Mmu} {memory : Word → Option Word} {va va' : Word} {ttbr : Word} {tsz : Nat}
  {g : TranslationGranule}

/-- What sanitizing leaves of an input size. -/
structure Sized (g : TranslationGranule) (tsz : Nat) : Prop where
  le_tsz : 16 ≤ tsz
  tsz_le : tsz ≤ 48
  tsz_lt : tsz ≤ 63 - g.pageOffsetBits

theorem sized_sanitizeTsz (g : TranslationGranule) (tsz : Nat) : Sized g (sanitizeTsz tsz g) := by
  constructor <;> cases g <;> simp only [sanitizeTsz, TranslationGranule.pageOffsetBits] <;> omega

theorem selectTtbr_ok (h : mmu.config.selectTtbr va = .ok (ttbr, tsz, g)) : Sized g tsz ∧
    (va < 1 <<< (64 - mmu.config.t0sz) ∧ tsz = mmu.config.t0sz ∨
      ¬va < 1 <<< (64 - mmu.config.t0sz) ∧ ~~~(((1 : Word) <<< (64 - tsz)) - 1) ≤ va) := by
  have h0 := congrArg MmuConfig.t0sz mmu.isSanitized
  have h1 := congrArg MmuConfig.t1sz mmu.isSanitized
  unfold selectTtbr at h
  split_ifs at h with hlow hhigh
  · cases h
    refine ⟨?_, .inl ⟨hlow, rfl⟩⟩
    rw [← h0]
    exact sized_sanitizeTsz _ _
  · cases h
    refine ⟨?_, .inr ⟨hlow, hhigh⟩⟩
    rw [← h1]
    exact sized_sanitizeTsz _ _

/-- The start level resolves at least one bit of the input size and at most all of a level. -/
theorem Sized.startLevel (h : Sized g tsz) : startLevel g tsz ≤ 3 ∧
    g.levelShift (startLevel g tsz) < 64 - tsz ∧
    64 - tsz ≤ g.levelShift (startLevel g tsz) + g.bitsPerLevel ∧
    g.levelShift (startLevel g tsz) + g.bitsPerLevel ≤ 64 := by
  obtain ⟨hle, htsz, hlt⟩ := h
  cases g <;>
    simp only [Aarch64.startLevel, levelsBelow, TranslationGranule.levelShift,
      TranslationGranule.pageOffsetBits, TranslationGranule.bitsPerLevel] at hlt ⊢ <;>
    omega

/-! ## Indices -/

theorem toNat_shifted {k : Nat} (hk : k < 64) : (((1 <<< k : Nat) : Word)).toNat = 2 ^ k := by
  have hlt : 2 ^ k < 2 ^ 64 := Nat.pow_lt_pow_right (by decide) hk
  rw [Nat.shiftLeft_eq, Nat.one_mul]
  exact (BitVec.toNat_ofNat _ _).trans (Nat.mod_eq_of_lt hlt)

theorem toNat_one_shiftLeft {k : Nat} (hk : k < 64) : ((1 : Word) <<< k).toNat = 2 ^ k := by
  have hlt : 2 ^ k < 2 ^ 64 := Nat.pow_lt_pow_right (by decide) hk
  have hone : (1 : Word).toNat = 1 := rfl
  rw [BitVec.toNat_shiftLeft, Nat.shiftLeft_eq, hone, Nat.one_mul, Nat.mod_eq_of_lt hlt]

theorem toNat_levelIndex (va : Word) (level : Nat) (g : TranslationGranule) :
    (levelIndex va level g).toNat = va.toNat / 2 ^ g.levelShift level % 2 ^ g.bitsPerLevel := by
  have hmask : (((1 <<< g.bitsPerLevel : Nat) : Word) - 1).toNat = 2 ^ g.bitsPerLevel - 1 := by
    cases g <;> rfl
  rw [levelIndex, BitVec.toNat_and, hmask, Nat.and_two_pow_sub_one_eq_mod,
    BitVec.toNat_ushiftRight, Nat.shiftRight_eq_div_pow]

theorem indexBits_eq {inputSize level : Nat} (h : g.levelShift level ≤ inputSize) :
    indexBits va inputSize level g = va.toNat / 2 ^ g.levelShift level %
      2 ^ (inputSize - g.levelShift level) % 2 ^ g.bitsPerLevel := by
  obtain ⟨k, rfl⟩ := Nat.exists_eq_add_of_le h
  rw [indexBits, Nat.pow_add, Nat.mod_mul_right_div_self, Nat.add_sub_cancel_left]

theorem levelIndex_of_inside {inputSize level : Nat}
    (h : g.levelShift level + g.bitsPerLevel ≤ inputSize) :
    (levelIndex va level g).toNat = indexBits va inputSize level g := by
  rw [toNat_levelIndex, indexBits_eq (by omega),
    Nat.mod_mod_of_dvd _ (Nat.pow_dvd_pow 2 (by omega))]

theorem levelIndex_of_low {inputSize level : Nat} (hsize : inputSize < 64)
    (h : va < 1 <<< inputSize) :
    (levelIndex va level g).toNat = indexBits va inputSize level g := by
  have hlt : va.toNat < 2 ^ inputSize := by
    rw [BitVec.lt_def, toNat_shifted hsize] at h
    exact h
  rw [toNat_levelIndex, indexBits, Nat.mod_eq_of_lt hlt]

/-- The upper range, by the part of the address above the input size. -/
theorem high_iff {inputSize : Nat} (hsize : inputSize < 64) :
    ~~~(((1 : Word) <<< inputSize) - 1) ≤ va ↔
      va.toNat / 2 ^ inputSize = 2 ^ (64 - inputSize) - 1 := by
  have hone : (1 : Word).toNat = 1 := rfl
  have hpos : 0 < 2 ^ inputSize := Nat.two_pow_pos _
  have hlt : 2 ^ inputSize < 2 ^ 64 := Nat.pow_lt_pow_right (by decide) hsize
  have hpow : 2 ^ inputSize * 2 ^ (64 - inputSize) = 2 ^ 64 := by
    rw [← Nat.pow_add, Nat.add_sub_cancel' (Nat.le_of_lt hsize)]
  have hupper : va.toNat / 2 ^ inputSize < 2 ^ (64 - inputSize) :=
    Nat.div_lt_of_lt_mul (hpow.symm ▸ va.isLt)
  have hbound : ~~~(((1 : Word) <<< inputSize) - 1) ≤ va ↔ 2 ^ 64 - 2 ^ inputSize ≤ va.toNat := by
    rw [BitVec.le_def, BitVec.toNat_not, BitVec.toNat_sub, toNat_one_shiftLeft hsize, hone]
    omega
  have hdiv : 2 ^ (64 - inputSize) - 1 ≤ va.toNat / 2 ^ inputSize ↔
      2 ^ 64 - 2 ^ inputSize ≤ va.toNat := by
    rw [Nat.le_div_iff_mul_le hpos, Nat.sub_mul, Nat.one_mul, Nat.mul_comm, hpow]
  rw [hbound, ← hdiv]
  omega

theorem low_iff {inputSize : Nat} (hsize : inputSize < 64) :
    va < 1 <<< inputSize ↔ va.toNat / 2 ^ inputSize = 0 := by
  have hpos : 0 < 2 ^ inputSize := Nat.two_pow_pos _
  rw [BitVec.lt_def, toNat_shifted hsize, Nat.div_eq_zero_iff]
  omega

/-- The addresses of the upper range have ones above the input size. -/
theorem testBit_of_high {inputSize i : Nat} (hsize : inputSize < 64)
    (h : ~~~(((1 : Word) <<< inputSize) - 1) ≤ va) (hi : inputSize ≤ i) (hi' : i < 64) :
    va.toNat.testBit i = true := by
  obtain ⟨j, rfl⟩ := Nat.exists_eq_add_of_le hi
  have hbit : (va.toNat / 2 ^ inputSize).testBit j = true := by
    rw [(high_iff hsize).mp h, Nat.testBit_two_pow_sub_one]
    exact decide_eq_true (by omega)
  rw [Nat.testBit_div_two_pow, Nat.add_comm] at hbit
  exact hbit

theorem levelShift_add_le {level level' : Nat} (h : level' < level) (hle : level ≤ 3) :
    g.levelShift level + g.bitsPerLevel ≤ g.levelShift level' := by
  cases g <;>
    simp only [TranslationGranule.levelShift, TranslationGranule.pageOffsetBits,
      TranslationGranule.bitsPerLevel] <;> omega

theorem full_iff (h : Sized g tsz) : (64 - tsz - g.pageOffsetBits) % g.bitsPerLevel = 0 ↔
    g.levelShift (startLevel g tsz) + g.bitsPerLevel ≤ 64 - tsz := by
  obtain ⟨hle, htsz, hlt⟩ := h
  cases g <;>
    simp only [startLevel, levelsBelow, TranslationGranule.levelShift,
      TranslationGranule.pageOffsetBits, TranslationGranule.bitsPerLevel] at hlt ⊢ <;>
    omega

/-- Indices are exact in the lower range and below a full start table. -/
theorem levelIndex_exact (h : mmu.config.selectTtbr va = .ok (ttbr, tsz, g))
    (hregular : va < 1 <<< (64 - mmu.config.t0sz) ∨
      (64 - tsz - g.pageOffsetBits) % g.bitsPerLevel = 0) {level : Nat}
    (hstart : startLevel g tsz ≤ level) (hle : level ≤ 3) :
    (levelIndex va level g).toNat = indexBits va (64 - tsz) level g := by
  obtain ⟨hsized, hrange⟩ := selectTtbr_ok h
  obtain ⟨-, hshift, -, -⟩ := hsized.startLevel
  rcases Nat.lt_or_eq_of_le hstart with hlt | rfl
  · have hbelow := levelShift_add_le (g := g) hlt hle
    exact levelIndex_of_inside (by omega)
  · rcases hregular with hlow | hfull
    · have htsz := hsized.le_tsz
      rcases hrange with ⟨hlow', rfl⟩ | ⟨hhigh, -⟩
      · exact levelIndex_of_low (by omega) hlow'
      · exact absurd hlow hhigh
    · exact levelIndex_of_inside ((full_iff hsized).mp hfull)

/-- The index of an address of the upper range has a one above the bits of a start table that is
not full. -/
theorem full_of_exact (hsized : Sized g tsz) (hhigh : ~~~(((1 : Word) <<< (64 - tsz)) - 1) ≤ va)
    (hexact : (levelIndex va (startLevel g tsz) g).toNat =
      indexBits va (64 - tsz) (startLevel g tsz) g) :
    (64 - tsz - g.pageOffsetBits) % g.bitsPerLevel = 0 := by
  obtain ⟨-, hshift, -, htop⟩ := hsized.startLevel
  have htsz := hsized.le_tsz
  rw [full_iff hsized]
  by_contra hpartial
  obtain ⟨k, hk⟩ := Nat.exists_eq_add_of_le (Nat.le_of_lt hshift)
  rw [toNat_levelIndex, indexBits_eq (Nat.le_of_lt hshift), hk, Nat.add_sub_cancel_left] at hexact
  have hone : (va.toNat / 2 ^ g.levelShift (startLevel g tsz) %
      2 ^ g.bitsPerLevel).testBit k = true := by
    rw [Nat.testBit_mod_two_pow, Nat.testBit_div_two_pow, Nat.add_comm, ← hk,
      testBit_of_high (by omega) hhigh (Nat.le_refl _) (by omega), Bool.and_true]
    exact decide_eq_true (by omega)
  rw [hexact, Nat.testBit_mod_two_pow, Nat.testBit_mod_two_pow] at hone
  simp at hone

theorem levelIndex_start_lt (hsized : Sized g tsz)
    (hexact : (levelIndex va (startLevel g tsz) g).toNat =
      indexBits va (64 - tsz) (startLevel g tsz) g) :
    (levelIndex va (startLevel g tsz) g).toNat <
      2 ^ (64 - tsz - g.levelShift (startLevel g tsz)) := by
  rw [hexact, indexBits_eq (Nat.le_of_lt hsized.startLevel.2.1)]
  exact Nat.lt_of_le_of_lt (Nat.mod_le _ _) (Nat.mod_lt _ (Nat.two_pow_pos _))

/-! ## Leaves -/

variable {tableAddr : Word} {e : PageTableEntry}

theorem fetch_ok_iff {level inputSize : Nat}
    (hexact : (levelIndex va level g).toNat = indexBits va inputSize level g) :
    fetch memory va g level tableAddr = .ok e ↔
      entryAt memory va inputSize g level tableAddr = some e ∧ e.isValid = true := by
  have hindex : levelIndex va level g = BitVec.ofNat 64 (indexBits va inputSize level g) := by
    rw [← hexact, BitVec.ofNat_toNat, BitVec.setWidth_eq]
  rw [fetch, entryAt, hindex]
  cases memory (tableAddr + BitVec.ofNat 64 (indexBits va inputSize level g) * 8) with
  | none => simp
  | some v =>
    cases hvalid : PageTableEntry.isValid ⟨v⟩ with
    | false =>
      simp only [hvalid, Bool.not_false, if_true, Option.map_some, Option.some.injEq]
      constructor
      · nofun
      · rintro ⟨rfl, h⟩
        rw [hvalid] at h
        cases h
    | true =>
      simp only [hvalid, Bool.not_true, Bool.false_eq_true, if_false, Option.map_some,
        Option.some.injEq, Except.ok.injEq]
      constructor
      · rintro rfl
        exact ⟨rfl, hvalid⟩
      · exact And.left

theorem pure_ok_iff {p q : WalkPath} :
    (pure p : Except TranslationFault WalkPath) = .ok q ↔ q = p := by
  constructor
  · intro h
    exact (Except.ok.inj h).symm
  · rintro rfl
    rfl

variable {p : WalkPath}

theorem descend_zero_ok_iff :
    descend memory va g 0 tableAddr = .ok p ↔
      ∃ e, fetch memory va g 3 tableAddr = .ok e ∧ p = ⟨[], e, 3⟩ := by
  rw [descend, Result.bind_ok_iff]
  exact exists_congr fun e => and_congr_right fun _ => pure_ok_iff

/-- What it finds above: a table to go on from, or the end. -/
theorem descend_succ_ok_iff {n : Nat} :
    descend memory va g (n + 1) tableAddr = .ok p ↔
      ∃ e, fetch memory va g (3 - (n + 1)) tableAddr = .ok e ∧
        (e.isTable = true ∧ (∃ q, descend memory va g n (e.outputAddress g (3 - (n + 1))) = .ok q ∧
            p = { q with tables := e :: q.tables }) ∨
          e.isTable = false ∧ p = ⟨[], e, 3 - (n + 1)⟩) := by
  rw [descend, Result.bind_ok_iff]
  refine exists_congr fun e => and_congr_right fun _ => ?_
  cases htable : e.isTable with
  | true =>
    simp only [if_true, Result.bind_ok_iff, true_and, Bool.true_eq_false, false_and, or_false]
    exact exists_congr fun q => and_congr_right fun _ => pure_ok_iff
  | false =>
    simp only [Bool.false_eq_true, if_false, false_and, true_and, false_or]
    exact pure_ok_iff

/-- The tables hold a reserved descriptor on a path exactly if the walk ends at it. -/
theorem holdsReserved_iff {inputSize n : Nat} (hn : n ≤ 3)
    (hexact : ∀ level, 3 - n ≤ level → level ≤ 3 →
      (levelIndex va level g).toNat = indexBits va inputSize level g) :
    holdsReserved memory va inputSize g n tableAddr = true ↔
      ∃ p, descend memory va g n tableAddr = .ok p ∧ p.leaf.isLeaf g p.level = false := by
  induction n generalizing tableAddr with
  | zero =>
    simp only [descend_zero_ok_iff, fetch_ok_iff (hexact 3 (Nat.le_refl _) (Nat.le_refl _))]
    rw [holdsReserved]
    cases hentry : entryAt memory va inputSize g 3 tableAddr with
    | none => simp
    | some e =>
      simp only [Option.some.injEq, Bool.and_eq_true, Bool.not_eq_true']
      constructor
      · rintro ⟨hvalid, htable⟩
        exact ⟨_, ⟨e, ⟨rfl, hvalid⟩, rfl⟩, htable⟩
      · rintro ⟨_, ⟨_, ⟨rfl, hvalid⟩, rfl⟩, hleaf⟩
        exact ⟨hvalid, hleaf⟩
  | succ n ih =>
    have hlevel : ¬3 - (n + 1) = 3 := by omega
    have ih' := fun t => @ih t (by omega)
      fun level hlow hle => hexact level (by omega) hle
    simp only [descend_succ_ok_iff, fetch_ok_iff (hexact _ (Nat.le_refl _) (Nat.sub_le _ _))]
    rw [holdsReserved]
    cases hentry : entryAt memory va inputSize g (3 - (n + 1)) tableAddr with
    | none => simp
    | some e =>
      simp only [Option.some.injEq]
      by_cases htable : e.isTable = true
      · rw [if_pos htable, ih']
        have hvalid : e.isValid = true := (Bool.and_eq_true_iff.mp htable).1
        constructor
        · rintro ⟨q, hq, hleaf⟩
          exact ⟨_, ⟨e, ⟨rfl, hvalid⟩, .inl ⟨htable, q, hq, rfl⟩⟩, hleaf⟩
        · rintro ⟨_, ⟨_, ⟨rfl, -⟩, ⟨-, q, hq, rfl⟩ | ⟨hnot, -⟩⟩, hleaf⟩
          · exact ⟨q, hq, hleaf⟩
          · rw [htable] at hnot
            cases hnot
      · rw [if_neg htable]
        have hnot : e.isTable = false := Bool.eq_false_iff.mpr htable
        have hleaf : e.isLeaf g (3 - (n + 1)) = (e.isValid && g.hasBlocks (3 - (n + 1))) := by
          rw [PageTableEntry.isLeaf, if_neg hlevel, hnot, Bool.not_false, Bool.and_true]
        constructor
        · intro h
          simp only [Bool.and_eq_true, Bool.not_eq_true'] at h
          obtain ⟨hvalid, hblocks⟩ := h
          refine ⟨_, ⟨e, ⟨rfl, hvalid⟩, .inr ⟨hnot, rfl⟩⟩, hleaf.trans ?_⟩
          rw [hblocks, Bool.and_false]
        · rintro ⟨_, ⟨_, ⟨rfl, hvalid⟩, ⟨htab, -⟩ | ⟨-, rfl⟩⟩, hno⟩
          · exact absurd htab htable
          · have hno' := hleaf.symm.trans hno
            rw [hvalid, Bool.true_and] at hno'
            rw [hvalid, hno']
            rfl

/-! ## Frames -/

/-- The descent ends between its start and level 3, and above level 3 not at a table. -/
theorem descend_level {n : Nat} (h : descend memory va g n tableAddr = .ok p) :
    3 - n ≤ p.level ∧ p.level ≤ 3 ∧ (p.leaf.isTable = true → p.level = 3) := by
  induction n generalizing tableAddr p with
  | zero =>
    obtain ⟨e, -, rfl⟩ := descend_zero_ok_iff.mp h
    exact ⟨Nat.le_refl _, Nat.le_refl _, fun _ => rfl⟩
  | succ n ih =>
    obtain ⟨e, -, ⟨-, q, hq, rfl⟩ | ⟨hnot, rfl⟩⟩ := descend_succ_ok_iff.mp h
    · obtain ⟨hlow, hle, htable⟩ := ih hq
      exact ⟨Nat.le_trans (by omega) hlow, hle, htable⟩
    · refine ⟨Nat.le_refl _, Nat.sub_le _ _, fun htable => ?_⟩
      rw [hnot] at htable
      cases htable

theorem div_eq_of_shift_eq {s m : Nat} (h : va' >>> s = va >>> s) (hs : s ≤ m) :
    va'.toNat / 2 ^ m = va.toNat / 2 ^ m := by
  have hnat := congrArg BitVec.toNat h
  rw [BitVec.toNat_ushiftRight, BitVec.toNat_ushiftRight, Nat.shiftRight_eq_div_pow,
    Nat.shiftRight_eq_div_pow] at hnat
  obtain ⟨k, rfl⟩ := Nat.exists_eq_add_of_le hs
  rw [Nat.pow_add, ← Nat.div_div_eq_div_mul, ← Nat.div_div_eq_div_mul, hnat]

theorem levelShift_le {level level' : Nat} (h : level' ≤ level) (hle : level ≤ 3) :
    g.levelShift level ≤ g.levelShift level' := by
  rcases Nat.lt_or_eq_of_le h with hlt | rfl
  · exact (Nat.le_add_right _ _).trans (levelShift_add_le hlt hle)
  · exact Nat.le_refl _

theorem fetch_congr {level : Nat}
    (hva : va'.toNat / 2 ^ g.levelShift level = va.toNat / 2 ^ g.levelShift level)
    (h : fetch memory va g level tableAddr = .ok e) :
    fetch memory va' g level tableAddr = .ok e := by
  have hindex : levelIndex va' level g = levelIndex va level g := by
    refine BitVec.eq_of_toNat_eq ?_
    rw [toNat_levelIndex, toNat_levelIndex, hva]
  rw [fetch] at h ⊢
  rw [hindex]
  cases hentry : memory (tableAddr + levelIndex va level g * 8) with
  | none =>
    rw [hentry] at h
    cases h
  | some v =>
    rw [hentry] at h
    dsimp only at h ⊢
    split_ifs at h ⊢
    exact h

theorem descend_congr {n : Nat} (h : descend memory va g n tableAddr = .ok p)
    (hva : va' >>> g.levelShift p.level = va >>> g.levelShift p.level) :
    descend memory va' g n tableAddr = .ok p := by
  obtain ⟨hlow, hle, -⟩ := descend_level h
  have hfirst := div_eq_of_shift_eq hva (levelShift_le (g := g) hlow hle)
  induction n generalizing tableAddr p with
  | zero =>
    obtain ⟨e, hfetch, rfl⟩ := descend_zero_ok_iff.mp h
    exact descend_zero_ok_iff.mpr ⟨e, fetch_congr hfirst hfetch, rfl⟩
  | succ n ih =>
    obtain ⟨e, hfetch, ⟨htable, q, hq, rfl⟩ | ⟨hnot, rfl⟩⟩ := descend_succ_ok_iff.mp h
    · obtain ⟨hlow', hle', -⟩ := descend_level hq
      have hnext := ih hq hva hlow' hle' (div_eq_of_shift_eq hva (levelShift_le hlow' hle'))
      exact descend_succ_ok_iff.mpr ⟨e, fetch_congr hfirst hfetch, .inl ⟨htable, q, hnext, rfl⟩⟩
    · exact descend_succ_ok_iff.mpr ⟨e, fetch_congr hfirst hfetch, .inr ⟨hnot, rfl⟩⟩

theorem selectTtbr_congr (h : mmu.config.selectTtbr va = .ok (ttbr, tsz, g))
    (hva : va'.toNat / 2 ^ (64 - tsz) = va.toNat / 2 ^ (64 - tsz)) :
    mmu.config.selectTtbr va' = .ok (ttbr, tsz, g) := by
  have hsized := (selectTtbr_ok h).1
  have htsz := hsized.le_tsz
  have htsz' := hsized.tsz_le
  have h0 : 16 ≤ mmu.config.t0sz := by
    rw [← congrArg MmuConfig.t0sz mmu.isSanitized]
    exact (sized_sanitizeTsz _ _).le_tsz
  unfold selectTtbr at h ⊢
  split_ifs at h with hlow hhigh
  · cases h
    rw [low_iff (by omega)] at hlow
    rw [if_pos ((low_iff (by omega)).mpr (hva.trans hlow))]
  · cases h
    have hhigh' := (high_iff (by omega)).mpr (hva.trans ((high_iff (by omega)).mp hhigh))
    -- Bit 63 is set, and the lower range ends far below.
    have hbit := testBit_of_high (i := 63) (by omega) hhigh' (by omega) (by omega)
    have hnot : ¬va' < 1 <<< (64 - mmu.config.t0sz) := by
      rw [BitVec.lt_def, toNat_shifted (by omega)]
      have hge := Nat.ge_two_pow_of_testBit hbit
      have hle : 2 ^ (64 - mmu.config.t0sz) ≤ 2 ^ 63 := Nat.pow_le_pow_right (by decide) (by omega)
      omega
    rw [if_neg hnot, if_pos hhigh']

theorem getLsbD_mask {k i : Nat} (hk : k < 64) :
    (((1 : Word) <<< k) - 1).getLsbD i = decide (i < k) := by
  have hpos : 0 < 2 ^ k := Nat.two_pow_pos _
  have hlt : 2 ^ k < 2 ^ 64 := Nat.pow_lt_pow_right (by decide) hk
  have hnat : (((1 : Word) <<< k) - 1).toNat = 2 ^ k - 1 := by
    have hone : (1 : Word).toNat = 1 := rfl
    rw [BitVec.toNat_sub, toNat_one_shiftLeft hk, hone]
    omega
  rw [← BitVec.testBit_toNat, hnat, Nat.testBit_two_pow_sub_one]

theorem getLsbD_mask' {k i : Nat} (hk : k < 64) :
    (((1 <<< k : Nat) : Word) - 1).getLsbD i = decide (i < k) := by
  have hsame : ((1 <<< k : Nat) : Word) = (1 : Word) <<< k := by
    refine BitVec.eq_of_toNat_eq ?_
    rw [toNat_shifted hk, toNat_one_shiftLeft hk]
  rw [hsame, getLsbD_mask hk]

/-- The address of a leaf has no bits below its block or page. -/
theorem getLsbD_outputAddress {level i : Nat} (htable : e.isTable = true → level = 3)
    (hshift : g.levelShift level < 64) (hi : i < g.levelShift level) :
    (e.outputAddress g level).getLsbD i = false := by
  unfold PageTableEntry.outputAddress
  split_ifs with h
  · obtain rfl := htable h
    have hmask : g.tableMask.getLsbD i = false := by
      revert hi
      cases g
      · exact (by decide : ∀ i < 12, TranslationGranule.granule4KB.tableMask.getLsbD i = false) i
      · exact (by decide : ∀ i < 14, TranslationGranule.granule16KB.tableMask.getLsbD i = false) i
      · exact (by decide : ∀ i < 16, TranslationGranule.granule64KB.tableMask.getLsbD i = false) i
    rw [BitVec.getLsbD_and, hmask, Bool.and_false]
  · rw [BitVec.getLsbD_and, BitVec.getLsbD_and, BitVec.getLsbD_not, getLsbD_mask hshift]
    simp [hi]

/-- A physical address is made of the frame of its leaf and the offset of its virtual address. -/
theorem computePa_frame {level : Nat} (htable : e.isTable = true → level = 3)
    (hshift : g.levelShift level < 64) :
    computePa va e level g >>> g.levelShift level =
        e.outputAddress g level >>> g.levelShift level ∧
      (computePa va e level g).toNat % 2 ^ g.levelShift level =
        va.toNat % 2 ^ g.levelShift level := by
  have hbit : ∀ i, (computePa va e level g).getLsbD i = ((e.outputAddress g level).getLsbD i ||
      (va.getLsbD i && decide (i < g.levelShift level))) := by
    intro i
    rw [computePa, BitVec.getLsbD_or, BitVec.getLsbD_and, getLsbD_mask' hshift]
  constructor
  · refine BitVec.eq_of_getLsbD_eq fun i _ => ?_
    rw [BitVec.getLsbD_ushiftRight, BitVec.getLsbD_ushiftRight, hbit]
    simp
  · have hlow : (computePa va e level g).setWidth (g.levelShift level) =
        va.setWidth (g.levelShift level) := by
      refine BitVec.eq_of_getLsbD_eq fun i hi => ?_
      rw [BitVec.getLsbD_setWidth, BitVec.getLsbD_setWidth, hbit,
        getLsbD_outputAddress htable hshift hi]
      simp [hi]
    have hnat := congrArg BitVec.toNat hlow
    rw [BitVec.toNat_setWidth, BitVec.toNat_setWidth] at hnat
    exact hnat

theorem path_ok_iff (h : mmu.config.selectTtbr va = .ok (ttbr, tsz, g)) :
    mmu.path va memory = .ok p ↔
      descend memory va g (levelsBelow g tsz) (ttbr &&& 0x0000FFFFFFFFF000) = .ok p := by
  rw [Mmu.path, h]
  rfl

theorem pa_of_translate {access : Access} {d : AddressDescriptor}
    (henabled : mmu.config.enabled = true) (h : mmu.config.selectTtbr va = .ok (ttbr, tsz, g))
    (hpath : mmu.path va memory = .ok p) (htranslate : mmu.translate va memory access = .ok d) :
    d.pa = computePa va p.leaf p.level g := by
  rw [path_ok_iff h] at hpath
  have hwalk : mmu.translate va memory access = mmu.config.walkLoop memory va access g
      (levelsBelow g tsz) (ttbr &&& 0x0000FFFFFFFFF000) {} := by
    unfold Mmu.translate
    simp only [henabled, Bool.not_true, Bool.false_eq_true, if_false, h]
    rfl
  rw [hwalk, walkLoop_eq, hpath] at htranslate
  change mmu.config.finish va access g p.leaf p.level _ = .ok d at htranslate
  unfold finish at htranslate
  split_ifs at htranslate
  obtain ⟨_, -, hpure⟩ := Result.bind_ok_iff.mp htranslate
  cases hpure
  rfl

theorem frame_of_translate {access : Access} {d : AddressDescriptor}
    (henabled : mmu.config.enabled = true) (h : mmu.config.selectTtbr va = .ok (ttbr, tsz, g))
    (hpath : mmu.path va memory = .ok p) (htranslate : mmu.translate va memory access = .ok d)
    (hva : va' >>> g.levelShift p.level = va >>> g.levelShift p.level) :
    ∃ d', mmu.translate va' memory access = .ok d' ∧
      d'.pa >>> g.levelShift p.level = d.pa >>> g.levelShift p.level ∧
      d'.pa.toNat % 2 ^ g.levelShift p.level = va'.toNat % 2 ^ g.levelShift p.level := by
  obtain ⟨-, hshift, -, -⟩ := (selectTtbr_ok h).1.startLevel
  have hdescend := (path_ok_iff h).mp hpath
  obtain ⟨hlow, hle, htable⟩ := descend_level hdescend
  have hbelow : g.levelShift p.level ≤ g.levelShift (startLevel g tsz) := levelShift_le hlow hle
  have h' : mmu.config.selectTtbr va' = .ok (ttbr, tsz, g) :=
    selectTtbr_congr h (div_eq_of_shift_eq hva (hbelow.trans (Nat.le_of_lt hshift)))
  have hpath' : mmu.path va' memory = .ok p := (path_ok_iff h').mpr (descend_congr hdescend hva)
  obtain ⟨d', hd'⟩ : ∃ d', mmu.translate va' memory access = .ok d' := by
    obtain ⟨q, hq, hflag, hcheck⟩ := (translate_ok_iff henabled).mp ⟨d, htranslate⟩
    rw [hpath] at hq
    cases hq
    refine (translate_ok_iff henabled).mpr ⟨p, hpath', hflag, ?_⟩
    rw [checkPermissions_ok_iff] at hcheck ⊢
    exact hcheck
  have hlt : g.levelShift p.level < 64 := Nat.lt_of_le_of_lt hbelow (by omega)
  refine ⟨d', hd', ?_, ?_⟩
  · rw [pa_of_translate henabled h' hpath' hd', pa_of_translate henabled h hpath htranslate,
      (computePa_frame htable hlt).1, (computePa_frame htable hlt).1]
  · rw [pa_of_translate henabled h' hpath' hd', (computePa_frame htable hlt).2]

/-- The walk of an address is exact exactly if the address and the tables are regular. -/
theorem walksExactly_iff (mmu : Mmu) (memory : Word → Option Word) (va : Word) :
    mmu.WalksExactly memory va ↔ mmu.Regular memory va := by
  refine forall_congr' fun henabled => forall_congr' fun ttbr => forall_congr' fun tsz =>
    forall_congr' fun g => forall_congr' fun h => ?_
  obtain ⟨hsized, hrange⟩ := selectTtbr_ok h
  have hlevels : levelsBelow g tsz ≤ 3 := Nat.sub_le _ _
  constructor
  · intro hexact
    refine ⟨?_, ?_⟩
    · rcases hrange with ⟨hlow, -⟩ | ⟨-, hhigh⟩
      · exact .inl hlow
      · exact .inr (full_of_exact hsized hhigh
          (hexact.indices _ (Nat.le_refl _) hsized.startLevel.1))
    · rw [Bool.eq_false_iff, Ne, holdsReserved_iff hlevels hexact.indices]
      rintro ⟨p, hp, hleaf⟩
      rw [hexact.leaf p ((path_ok_iff h).mpr hp)] at hleaf
      cases hleaf
  · rintro ⟨hregular, hreserved⟩
    have hindices : ∀ level, startLevel g tsz ≤ level → level ≤ 3 →
        (levelIndex va level g).toNat = indexBits va (64 - tsz) level g :=
      fun _ => levelIndex_exact h hregular
    refine ⟨hindices, levelIndex_start_lt hsized (hindices _ (Nat.le_refl _) hsized.startLevel.1),
      fun p hp => ?_, fun p access d hpath hd va' => frame_of_translate henabled h hpath hd⟩
    by_contra hleaf
    have hheld := (holdsReserved_iff hlevels hindices).mpr
      ⟨p, (path_ok_iff h).mp hp, Bool.eq_false_iff.mpr hleaf⟩
    rw [hreserved] at hheld
    cases hheld

/-- A unit whose upper range has 47 address bits, one fewer than four levels resolve. -/
def upperUnit : Mmu := Mmu.withConfig { enabled := true, t1sz := 17, ttbr1 := 0x1000 }

/-- The first upper address reads entry 256 of a start table with 256 entries. -/
theorem upperUnit_not_walksExactly :
    ¬upperUnit.WalksExactly (fun _ => none) 0xFFFF800000000000 := by
  intro hexact
  have hstart := (hexact rfl 0x1000 17 .granule4KB rfl).start
  exact absurd hstart (by decide)

end Rax.Aarch64

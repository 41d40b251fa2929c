import Rax.CortexM.MpuRegisters
import Mathlib.Data.List.Forall2

/-!
# Reading the MPU back

A region keeps decoded fields, and its registers are put together from them when they are read.
What is read of a region is compared with the defined bits of the words last written for it, and
the unit after its registers were saved and written back with the unit before.

The SIZE field is the exception. A region of `2 ^ (SIZE + 1)` bytes is read back with the number of
its highest bit, which is one more than the field.
-/

namespace Rax.CortexM

/-! ## What is read -/

/-- The bits of RBAR that hold a value: all of them where there is a limit register, else the base.
VALID and REGION only select. -/
def MpuType.rbarBits (t : MpuType) : Reg := if t.hasLimit then 0xFFFFFFFF else MpuRegion.addrMask

/-- The defined bits of RLAR, or of RASR. -/
def MpuType.attrsBits (t : MpuType) : Reg := if t.hasLimit then 0xFFFFFFFF else 0x173FFF3F

/-- The defined bits of a region's words. -/
def RegionWords.defined (t : MpuType) (w : RegionWords) : RegionWords where
  rbar := w.rbar &&& t.rbarBits
  attrs := w.attrs &&& t.attrsBits

/-- Read the registers of the selected region that a type has. -/
def Mpu.readWords (m : Mpu) : RegionWords :=
  if m.mpuType.hasLimit then { rbar := m.getRbarV8m, attrs := m.getRlarV8m }
  else { rbar := m.getRbarV7m, attrs := m.getRasrV7m }

/-- Select a region and read its registers. -/
def Mpu.readRegion (m : Mpu) (i : Nat) : RegionWords := (m.setRnr (BitVec.ofNat 32 i)).readWords

/-- The write of the register that holds a region's attributes. -/
def MpuType.attrsWrite (t : MpuType) (value : Reg) : MpuWrite :=
  if t.hasLimit then .rlar value else .rasr value

/-- The writes that set up regions from saved words. -/
def restoreWrites (t : MpuType) (saved : Nat → RegionWords) (regions : List Nat) : List MpuWrite :=
  regions.flatMap fun i =>
    [.rnr (BitVec.ofNat 32 i), .rbar (saved i).rbar, t.attrsWrite (saved i).attrs]

/-- Read the registers of all regions and write them back. -/
def Mpu.saveRestore (m : Mpu) : Mpu :=
  (restoreWrites m.mpuType m.readRegion (List.range m.mpuType.numRegions)).foldl Mpu.write m

/-- The registers of one region. -/
def MpuRegion.words (t : MpuType) (r : MpuRegion) : RegionWords :=
  if t.hasLimit then { rbar := r.getRbarV8m, attrs := r.getRlarV8m }
  else { rbar := r.getRbarV7m, attrs := r.getRasrV7m }

theorem MpuType.numRegions_le (t : MpuType) : t.numRegions ≤ 24 := by
  cases t <;> decide

theorem setWidth_region {t : MpuType} {i : Nat} (hi : i < t.numRegions) :
    ((BitVec.ofNat 32 i).setWidth 8).toNat = i := by
  have hle := t.numRegions_le
  rw [BitVec.toNat_setWidth, BitVec.toNat_ofNat, Nat.mod_eq_of_lt (show i < 2 ^ 32 by omega)]
  exact Nat.mod_eq_of_lt (by omega)

theorem Mpu.readRegion_eq {t : MpuType} {regs : MpuRegs} {m : Mpu} {i : Nat} {r : MpuRegion}
    (h : m.Shows t regs) (hi : i < t.numRegions) (hr : m.regions[i]? = some r) :
    m.readRegion i = r.words t := by
  have hsel : m.setRnr (BitVec.ofNat 32 i) = { m with selectedRegion := i } := by
    unfold Mpu.setRnr Mpu.select
    rw [setWidth_region hi, h.length, if_pos hi]
  unfold Mpu.readRegion MpuRegion.words
  rw [hsel]
  simp [Mpu.readWords, h.mpuType, Mpu.getRbarV7m, Mpu.getRasrV7m, Mpu.getRbarV8m, Mpu.getRlarV8m,
    Mpu.readSelected, hr]

/-! ## RASR -/

/-- The SIZE field that a region is read back with. -/
def sizeRead (field : BitVec 5) : BitVec 5 :=
  let size : Reg := if 4 ≤ field.toNat then (1 : Reg) <<< ((field.toNat + 1) % 32) else 0
  (if 0 < size then (31 - size.clz).setWidth 8 else 0 : Byte).setWidth 5

/-- It is the field that was written for no region with a size. -/
theorem sizeRead_eq_iff : ∀ field : BitVec 5, sizeRead field = field ↔ field = 0 := by
  decide +kernel

theorem getLsbD_rasrBits : ∀ i < 32, (0x173FFF3F : Reg).getLsbD i =
    decide (i < 6 ∨ 8 ≤ i ∧ i < 22 ∨ 24 ≤ i ∧ i < 27 ∨ i = 28) := by
  decide +kernel

theorem getLsbD_flagAt (k : Nat) (b : Bool) {i : Nat} (hi : i < 32) :
    (flagAt k b).getLsbD i = (b && decide (i = k)) := by
  unfold flagAt
  cases b with
  | false => simp
  | true =>
    simp only [if_true, BitVec.getLsbD_shiftLeft, BitVec.getLsbD_one, Bool.true_and]
    grind

/-- RASR keeps every defined bit but those of SIZE, which are the ones it is put together with. -/
theorem MpuRegionAttr.getLsbD_toRasr_fromRasr (x : Reg) (n : Byte) {i : Nat} (hi : i < 32) :
    ((fromRasr x).toRasr n (x.getLsbD 0)).getLsbD i =
      if 1 ≤ i ∧ i < 6 then n.getLsbD (i - 1) else (x &&& 0x173FFF3F).getLsbD i := by
  simp only [toRasr, fromRasr, BitVec.getLsbD_or, BitVec.getLsbD_and, BitVec.getLsbD_shiftLeft,
    BitVec.getLsbD_setWidth, BitVec.getLsbD_extractLsb', getLsbD_rasrBits i hi,
    getLsbD_flagAt _ _ hi]
  -- One case per field, so that only that field's bit is left.
  have hfield : i = 0 ∨ (1 ≤ i ∧ i < 6) ∨ (8 ≤ i ∧ i < 16) ∨ i = 16 ∨ i = 17 ∨ i = 18 ∨
      (19 ≤ i ∧ i < 22) ∨ (24 ≤ i ∧ i < 27) ∨ i = 28 ∨
      ¬(i < 6 ∨ 8 ≤ i ∧ i < 22 ∨ 24 ≤ i ∧ i < 27 ∨ i = 28) := by omega
  have hmask := getLsbD_limitMask (i - 1) (by omega)
  rcases hfield with rfl | h | h | rfl | rfl | rfl | h | h | rfl | h <;> grind

/-- What RASR reads is what was written exactly when the SIZE field is. -/
theorem MpuRegion.getRasrV7m_eq_iff (r : MpuRegion) (rbar rasr : Reg) :
    (r.configureV7m rbar rasr).getRasrV7m = rasr &&& 0x173FFF3F ↔ rasr.extractLsb' 1 5 = 0 := by
  rw [← sizeRead_eq_iff]
  have hread : ∀ i < 32, (r.configureV7m rbar rasr).getRasrV7m.getLsbD i =
      if 1 ≤ i ∧ i < 6 then (sizeRead (rasr.extractLsb' 1 5)).getLsbD (i - 1)
      else (rasr &&& 0x173FFF3F).getLsbD i := by
    intro i hi
    refine (MpuRegionAttr.getLsbD_toRasr_fromRasr rasr _ hi).trans ?_
    refine ite_congr rfl (fun hsize => ?_) fun _ => rfl
    have hlt : i - 1 < 5 := by omega
    have hwidth : sizeRead (rasr.extractLsb' 1 5) =
        (if 0 < sizeV7m rasr then (31 - (sizeV7m rasr).clz).setWidth 8 else 0 : Byte).setWidth 5 :=
      rfl
    rw [hwidth, BitVec.getLsbD_setWidth, decide_eq_true hlt, Bool.true_and]
    rfl
  constructor
  · intro heq
    refine BitVec.eq_of_getLsbD_eq fun i hi => ?_
    have hbit := hread (i + 1) (by omega)
    rw [heq, if_pos (by omega)] at hbit
    rw [BitVec.getLsbD_extractLsb', decide_eq_true hi, Bool.true_and, Nat.add_comm 1 i]
    refine hbit.symm.trans ?_
    rw [BitVec.getLsbD_and, getLsbD_rasrBits (i + 1) (by omega), decide_eq_true (by omega),
      Bool.and_true]
  · intro hsize
    refine BitVec.eq_of_getLsbD_eq fun i hi => ?_
    rw [hread i hi, hsize]
    split
    · rename_i hin
      rw [BitVec.getLsbD_extractLsb', BitVec.getLsbD_and, getLsbD_rasrBits i hi,
        decide_eq_true (show i - 1 < 5 by omega), decide_eq_true (Or.inl hin.2), Bool.true_and,
        Bool.and_true, Nat.add_sub_of_le hin.1]
    · rfl

/-! ## A region shows the words read from it -/

section

variable {t : MpuType} {w : RegionWords} {r : MpuRegion}

theorem RegionWords.defined_of_hasLimit (ht : t.hasLimit = true) (w : RegionWords) :
    w.defined t = w := by
  have hones : (0xFFFFFFFF : Reg) = BitVec.allOnes 32 := rfl
  simp only [defined, MpuType.rbarBits, MpuType.attrsBits, ht, if_true, hones, BitVec.and_allOnes]

/-- The registers of a region read as the defined bits of its words, unless it has a SIZE field
that is not zero. -/
theorem MpuRegion.Shows.words_eq_iff (h : r.Shows t w) :
    r.words t = w.defined t ↔ t.hasLimit = true ∨ w.sizeField = 0 := by
  cases ht : t.hasLimit with
  | true =>
    have heq : r.words t = w.defined t := by
      rw [w.defined_of_hasLimit ht]
      simp only [words, ht, if_true, h.getRbarV8m ht, h.getRlarV8m ht]
    simp [heq]
  | false =>
    simp only [Shows, ht] at h
    have hr : r = w.sized := h
    subst hr
    have hbase : w.sized.getRbarV7m = w.rbar &&& addrMask := by
      simp [getRbarV7m, RegionWords.sized, MpuRegion.configureV7m, BitVec.and_assoc]
    have hzero : w.attrs.extractLsb' 1 5 = 0 ↔ w.sizeField = 0 := by
      unfold RegionWords.sizeField
      exact (BitVec.toNat_eq (y := 0#5)).trans Iff.rfl
    simp only [words, RegionWords.defined, MpuType.rbarBits, MpuType.attrsBits, ht,
      Bool.false_eq_true, if_false, false_or, RegionWords.mk.injEq, hbase, true_and, ← hzero]
    exact MpuRegion.getRasrV7m_eq_iff {} w.rbar w.attrs

/-- The fields of a region are read from the defined bits of its words. -/
theorem MpuRegion.shows_defined (h : r.Shows t w) : r.Shows t (w.defined t) := by
  cases ht : t.hasLimit with
  | true => rwa [w.defined_of_hasLimit ht]
  | false =>
    simp only [Shows, ht] at h ⊢
    subst h
    have hbit : ∀ i < 32, (i < 6 ∨ 8 ≤ i ∧ i < 22 ∨ 24 ≤ i ∧ i < 27 ∨ i = 28) →
        (w.attrs &&& 0x173FFF3F).getLsbD i = w.attrs.getLsbD i := by
      intro i hi hdef
      rw [BitVec.getLsbD_and, getLsbD_rasrBits i hi, decide_eq_true hdef, Bool.and_true]
    have hfield : ∀ start len, start + len ≤ 32 →
        (∀ k < len, start + k < 6 ∨ 8 ≤ start + k ∧ start + k < 22 ∨
          24 ≤ start + k ∧ start + k < 27 ∨ start + k = 28) →
        (w.attrs &&& 0x173FFF3F).extractLsb' start len = w.attrs.extractLsb' start len := by
      intro start len hle hdef
      refine BitVec.eq_of_getLsbD_eq fun k hk => ?_
      rw [BitVec.getLsbD_extractLsb', BitVec.getLsbD_extractLsb',
        hbit (start + k) (by omega) (hdef k hk)]
    have hattr : MpuRegionAttr.fromRasr (w.attrs &&& 0x173FFF3F) = .fromRasr w.attrs := by
      unfold MpuRegionAttr.fromRasr
      rw [hbit 28 (by omega) (by omega), hbit 18 (by omega) (by omega),
        hbit 17 (by omega) (by omega), hbit 16 (by omega) (by omega),
        hfield 24 3 (by omega) (by omega), hfield 19 3 (by omega) (by omega),
        hfield 8 8 (by omega) (by omega)]
    have hsize : sizeV7m (w.attrs &&& 0x173FFF3F) = sizeV7m w.attrs := by
      unfold sizeV7m
      rw [hfield 1 5 (by omega) (by omega)]
    simp only [configureV7m, RegionWords.defined, MpuType.rbarBits, MpuType.attrsBits, ht,
      Bool.false_eq_true, if_false, hattr, hsize, hbit 0 (by omega) (by omega), BitVec.and_assoc,
      BitVec.and_self]

/-- Two regions that show the same words are found for the same addresses, and are then equal. -/
theorem MpuRegion.Shows.same {r' : MpuRegion} (h : r.Shows t w) (h' : r'.Shows t w) (addr : Reg) :
    Mpu.test t addr r = Mpu.test t addr r' ∧ (Mpu.test t addr r = some true → r = r') := by
  cases ht : t.hasLimit with
  | true =>
    simp only [Shows, ht, if_true] at h h'
    simp only [Mpu.test, ht, if_true]
    have hold : ∀ size size' : Reg,
        (({ size } : MpuRegion).configureV8m w.rbar w.attrs).containsV8m addr = true →
        ({ size } : MpuRegion).configureV8m w.rbar w.attrs =
          ({ size := size' } : MpuRegion).configureV8m w.rbar w.attrs := by
      intro size size' hin
      have hen : w.attrs.getLsbD 0 = true := by
        unfold containsV8m at hin
        split at hin
        · exact absurd hin (by decide)
        · rename_i hon
          simpa [MpuRegion.configureV8m] using hon
      simp only [MpuRegion.configureV8m, hen, if_true]
    rcases h with ⟨rfl, rfl⟩ | ⟨size, rfl⟩ <;> rcases h' with ⟨rfl, hw⟩ | ⟨size', rfl⟩
    · exact ⟨rfl, fun _ => rfl⟩
    · exact ⟨rfl, fun hin => absurd hin (by simp [containsV8m])⟩
    · subst hw
      exact ⟨rfl, fun hin => absurd hin (by simp [containsV8m, MpuRegion.configureV8m])⟩
    · exact ⟨rfl, fun hin => hold size size' (Option.some.inj hin)⟩
  | false =>
    simp only [Shows, ht] at h h'
    subst h h'
    exact ⟨rfl, fun _ => rfl⟩

end

/-! ## Writing the registers back -/

theorem Mpu.findFirst_congr {test : MpuRegion → Option Bool} {xs ys : List MpuRegion}
    (h : List.Forall₂ (fun r r' => test r = test r' ∧ (test r = some true → r = r')) xs ys) :
    findFirst test xs = findFirst test ys := by
  induction h with
  | nil => rfl
  | @cons r r' _ _ hr _ ih =>
    obtain ⟨htest, hfound⟩ := hr
    cases hb : test r with
    | none => simp [findFirst, ← htest, hb]
    | some b =>
      cases b with
      | true => simp [findFirst, ← hfound hb, hb]
      | false => simp [findFirst, ← htest, hb, ih]

/-- Units that show the same words of every region, and the same control word, find the same
region for every address. -/
theorem Mpu.Shows.findRegion_eq {t : MpuType} {regs regs' : MpuRegs} {m m' : Mpu}
    (h : m.Shows t regs) (h' : m'.Shows t regs') (hctrl : regs'.ctrl = regs.ctrl)
    (hwords : ∀ i < t.numRegions, ∀ r : MpuRegion,
      r.Shows t (regs.words i) → r.Shows t (regs'.words i)) (addr : Reg) :
    m'.findRegion addr = m.findRegion addr := by
  have hen : m'.enabled = m.enabled := by rw [h.enabled, h'.enabled, hctrl]
  cases hon : m.enabled with
  | false => simp [Mpu.findRegion, hon, hen]
  | true =>
    rw [Mpu.findRegion_eq m' addr (hen.trans hon), Mpu.findRegion_eq m addr hon, h.mpuType, h'.mpuType]
    refine Mpu.findFirst_congr (List.rel_reverse ?_)
    refine List.forall₂_iff_get.mpr ⟨h'.length.trans h.length.symm, fun i hi' hi => ?_⟩
    have hshow := hwords i (h.length ▸ hi) _ (h.regions i _ (List.getElem?_eq_getElem hi))
    exact (h'.regions i _ (List.getElem?_eq_getElem hi')).same hshow addr

/-- What writing saved words back leaves in the register file. -/
theorem MpuRegs.restore (t : MpuType) (saved : Nat → RegionWords)
    (hvalid : t.hasLimit = false → ∀ i, (saved i).rbar.getLsbD 4 = false) (regions : List Nat)
    (hregions : ∀ i ∈ regions, i < t.numRegions) (regs : MpuRegs) :
    ((restoreWrites t saved regions).foldl (MpuRegs.write t) regs).ctrl = regs.ctrl ∧
      ∀ j, ((restoreWrites t saved regions).foldl (MpuRegs.write t) regs).words j =
        if j ∈ regions then saved j else regs.words j := by
  induction regions generalizing regs with
  | nil => simp [restoreWrites]
  | cons i regions ih =>
    -- The three writes of one region.
    have hone : [MpuWrite.rnr (BitVec.ofNat 32 i), .rbar (saved i).rbar,
        t.attrsWrite (saved i).attrs].foldl (MpuRegs.write t) regs =
        { regs with rnr := i, words := Function.update regs.words i (saved i) } := by
      have hi := hregions i List.mem_cons_self
      have hselect : regs.write t (.rnr (BitVec.ofNat 32 i)) = { regs with rnr := i } := by
        simp only [MpuRegs.write, MpuRegs.select, setWidth_region hi, if_pos hi]
      have hsame : ∀ regs' : MpuRegs, regs'.rbarSelect t (saved i).rbar = regs' := by
        intro regs'
        unfold MpuRegs.rbarSelect
        cases ht : t.hasLimit with
        | true => simp
        | false => rw [hvalid ht i, Bool.and_false, if_neg Bool.false_ne_true]
      have hattrs : ∀ regs' : MpuRegs, regs'.write t (t.attrsWrite (saved i).attrs) =
          regs'.set fun w => { w with attrs := (saved i).attrs } := by
        intro regs'
        unfold MpuType.attrsWrite
        split <;> rfl
      simp only [List.foldl_cons, List.foldl_nil, hselect, hattrs]
      simp [MpuRegs.write, hsame, MpuRegs.set]
    have hsplit : restoreWrites t saved (i :: regions) = [MpuWrite.rnr (BitVec.ofNat 32 i),
        .rbar (saved i).rbar, t.attrsWrite (saved i).attrs] ++ restoreWrites t saved regions := rfl
    rw [hsplit, List.foldl_append, hone]
    obtain ⟨hctrl, hwords⟩ := ih (fun j hj => hregions j (List.mem_cons_of_mem i hj))
      { regs with rnr := i, words := Function.update regs.words i (saved i) }
    refine ⟨hctrl, fun j => ?_⟩
    rw [hwords j]
    by_cases hj : j ∈ regions
    · simp [hj]
    · by_cases hij : j = i
      · subst hij
        simp [hj]
      · simp [hj, hij]

theorem restoreWrites_isOf (t : MpuType) (saved : Nat → RegionWords) (regions : List Nat) :
    ∀ op ∈ restoreWrites t saved regions, op.isOf t = true := by
  intro op hop
  obtain ⟨i, -, hi⟩ := List.mem_flatMap.mp hop
  have hattrs : (t.attrsWrite (saved i).attrs).isOf t = true := by
    unfold MpuType.attrsWrite
    split <;> simp_all [MpuWrite.isOf]
  simp only [List.mem_cons, List.not_mem_nil, or_false] at hi
  rcases hi with rfl | rfl | rfl
  · rfl
  · rfl
  · exact hattrs

/-! ## Reading back, and saving and restoring -/

/-- Every region is read with the defined bits of the words last written for it. -/
def ReadsBack (t : MpuType) (ops : List MpuWrite) : Prop :=
  ∀ i < t.numRegions,
    (Mpu.after t ops).readRegion i = ((MpuRegs.after t ops).words i).defined t

/-- Saving the registers of all regions and writing them back changes no search and no check. -/
def RestoreKeeps (t : MpuType) (ops : List MpuWrite) : Prop :=
  ∀ addr, (Mpu.after t ops).saveRestore.findRegion addr = (Mpu.after t ops).findRegion addr ∧
    ∀ size access privileged, (Mpu.after t ops).saveRestore.checkAccess addr size access privileged =
      (Mpu.after t ops).checkAccess addr size access privileged

section

variable {t : MpuType} {regs : MpuRegs} {m : Mpu}

theorem Mpu.Shows.readRegion_eq_iff (h : m.Shows t regs) {i : Nat} (hi : i < t.numRegions) :
    m.readRegion i = (regs.words i).defined t ↔
      t.hasLimit = true ∨ (regs.words i).sizeField = 0 := by
  have hlen : i < m.regions.length := h.length ▸ hi
  have hr := List.getElem?_eq_getElem hlen
  rw [Mpu.readRegion_eq h hi hr]
  exact (h.regions i _ hr).words_eq_iff

/-- A unit whose registers read back shows, once they are written back, words that every region
showed before. -/
theorem Mpu.Shows.saveRestore (h : m.Shows t regs)
    (hread : ∀ i < t.numRegions, m.readRegion i = (regs.words i).defined t) :
    ∃ regs' : MpuRegs, m.saveRestore.Shows t regs' ∧ regs'.ctrl = regs.ctrl ∧
      ∀ i < t.numRegions, regs'.words i = (regs.words i).defined t := by
  have hwrites : m.saveRestore = (restoreWrites t (fun i => (regs.words i).defined t)
      (List.range t.numRegions)).foldl Mpu.write m := by
    unfold Mpu.saveRestore restoreWrites
    rw [h.mpuType]
    congr 1
    refine List.flatMap_congr fun i hi => ?_
    rw [hread i (List.mem_range.mp hi)]
  have hvalid : t.hasLimit = false → ∀ i, ((regs.words i).defined t).rbar.getLsbD 4 = false := by
    intro ht i
    simp only [RegionWords.defined, MpuType.rbarBits, ht, Bool.false_eq_true, if_false,
      BitVec.getLsbD_and, getLsbD_addrMask 4 (by decide)]
    simp
  obtain ⟨hctrl, hwords⟩ := MpuRegs.restore t (fun i => (regs.words i).defined t) hvalid
    (List.range t.numRegions) (fun i hi => List.mem_range.mp hi) regs
  refine ⟨_, hwrites ▸ h.writes _ (restoreWrites_isOf t _ _), hctrl, fun i hi => ?_⟩
  rw [hwords i, if_pos (List.mem_range.mpr hi)]

theorem Mpu.checkAccess_congr {m' : Mpu} {addr : Reg} (hen : m'.enabled = m.enabled)
    (hpriv : m'.privdefena = m.privdefena) (hfind : m'.findRegion addr = m.findRegion addr)
    (size : Reg) (access : AccessType) (privileged : Bool) :
    m'.checkAccess addr size access privileged = m.checkAccess addr size access privileged := by
  simp only [Mpu.checkAccess, hen, hpriv, hfind]

end

/-- The registers of the unit read back, and can be saved and restored, exactly where they have no
SIZE field or it is zero in every region. -/
theorem reads_back_iff (t : MpuType) (ops : List MpuWrite) (hops : ∀ op ∈ ops, op.isOf t = true) :
    (ReadsBack t ops ∧ RestoreKeeps t ops) ↔
      t.hasLimit = true ∨ ∀ i < t.numRegions, ((MpuRegs.after t ops).words i).sizeField = 0 := by
  have h : (Mpu.after t ops).Shows t (MpuRegs.after t ops) := (Mpu.shows_new t).writes ops hops
  constructor
  · rintro ⟨hread, -⟩
    cases ht : t.hasLimit with
    | true => exact .inl rfl
    | false =>
      refine .inr fun i hi => ?_
      have := (h.readRegion_eq_iff hi).mp (hread i hi)
      simpa [ht] using this
  · intro hcond
    have hread : ReadsBack t ops := by
      intro i hi
      refine (h.readRegion_eq_iff hi).mpr ?_
      exact hcond.imp id fun hzero => hzero i hi
    refine ⟨hread, fun addr => ?_⟩
    obtain ⟨regs', h', hctrl, hwords⟩ := h.saveRestore hread
    have hfind := h.findRegion_eq h' hctrl
      (fun i hi r hr => (hwords i hi).symm ▸ MpuRegion.shows_defined hr) addr
    refine ⟨hfind, Mpu.checkAccess_congr ?_ ?_ hfind⟩
    · rw [h'.enabled, h.enabled, hctrl]
    · rw [h'.privdefena, h.privdefena, hctrl]

/-- A unit with limits reads back: a region is set up and another one selected. -/
theorem reads_back_iff_limit :
    ReadsBack .v8m8 [.rnr 2, .rbar 0x20000003, .rlar 0x2000FFE1, .rnr 0, .ctrl 1] ∧
      RestoreKeeps .v8m8 [.rnr 2, .rbar 0x20000003, .rlar 0x2000FFE1, .rnr 0, .ctrl 1] :=
  (reads_back_iff .v8m8 _ (by decide)).mpr (.inl rfl)

/-- Region 0 of 32 bytes at `0x20000000` is read as one of 64 bytes, and is one once its registers
were written back: the next address after it is found in it. -/
theorem rasr_reads_larger :
    (Mpu.after .v7m8 [.rbar 0x20000000, .rasr 0x03000009, .ctrl 1]).readRegion 0 =
        { rbar := 0x20000000, attrs := 0x0300000B } ∧
      ((Mpu.after .v7m8 [.rbar 0x20000000, .rasr 0x03000009, .ctrl 1]).findRegion
        0x20000020) = some none ∧
      ((Mpu.after .v7m8 [.rbar 0x20000000, .rasr 0x03000009, .ctrl 1]).saveRestore.findRegion
        0x20000020) ≠ some none := by
  decide +kernel

end Rax.CortexM

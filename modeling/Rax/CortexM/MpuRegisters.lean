import Rax.CortexM.Mpu
import Mathlib.Algebra.Order.Ring.Int
import Mathlib.Data.List.Induction
import Mathlib.Logic.Function.Basic

/-!
# What the MPU enforces, in terms of the registers last written

The register file keeps, for each region, the words the program wrote last. From these words alone
it is said which addresses a region covers and what it permits. The unit shows the register file
after any sequence of writes, and its check is then read off the register file.
-/

namespace Rax.CortexM

/-- Types whose regions have a limit address. -/
def MpuType.hasLimit (t : MpuType) : Bool := t.isV8m || t.isV8r

/-! ## The register file -/

/-- The words of a region: RBAR, and RASR or RLAR. -/
structure RegionWords where
  rbar : Reg := 0
  attrs : Reg := 0
  deriving DecidableEq, Repr

namespace RegionWords

def base (w : RegionWords) : Nat := (w.rbar &&& MpuRegion.addrMask).toNat

def limit (w : RegionWords) : Nat := (w.attrs ||| 0x1F).toNat

def sizeField (w : RegionWords) : Nat := (w.attrs.extractLsb' 1 5).toNat

def enabled (w : RegionWords) : Bool := w.attrs.getLsbD 0

/-- The first address after a region that has a size. -/
def top (w : RegionWords) : Nat := w.base + 2 ^ (w.sizeField + 1)

/-- Whether the subregion of an address is disabled. -/
def subregionDisabled (w : RegionWords) (addr : Nat) : Bool :=
  decide (7 ≤ w.sizeField) && w.attrs.getLsbD (8 + (addr - w.base) / 2 ^ (w.sizeField - 2))

/-- The addresses of a region. -/
def covers (t : MpuType) (w : RegionWords) (addr : Nat) : Bool :=
  if t.hasLimit then w.enabled && decide (w.base ≤ addr) && decide (addr ≤ w.limit)
  else w.enabled && decide (4 ≤ w.sizeField) && decide (w.base ≤ addr) && decide (addr < w.top) &&
    !w.subregionDisabled addr

def permission (t : MpuType) (w : RegionWords) : AccessPermission :=
  if t.hasLimit then .fromApV8m (w.rbar.extractLsb' 1 2)
  else .fromApBitsV7m (w.attrs.extractLsb' 24 3)

def xn (t : MpuType) (w : RegionWords) : Bool :=
  if t.hasLimit then w.rbar.getLsbD 0 else w.attrs.getLsbD 28

def pxn (t : MpuType) (w : RegionWords) : Bool := t.hasLimit && w.attrs.getLsbD 4

/-- What the programmed permission and execute-never bits permit. -/
def permits (t : MpuType) (w : RegionWords) (access : AccessType) (privileged : Bool) : Bool :=
  match access with
  | .instructionFetch =>
    !w.xn t && !(privileged && w.pxn t) && (w.permission t).canRead privileged
  | .read | .atomic => (w.permission t).canRead privileged
  | .write => (w.permission t).canWrite privileged

end RegionWords

inductive MpuWrite
  | ctrl (value : Reg)
  | rnr (value : Reg)
  | rbar (value : Reg)
  | rasr (value : Reg)
  | rlar (value : Reg)
  deriving Repr

/-- The registers a type has. -/
def MpuWrite.isOf (t : MpuType) : MpuWrite → Bool
  | .rasr _ => !t.hasLimit
  | .rlar _ => t.hasLimit
  | _ => true

structure MpuRegs where
  ctrl : Reg := 0
  rnr : Nat := 0
  words : Nat → RegionWords := fun _ => {}

namespace MpuRegs

def select (t : MpuType) (regs : MpuRegs) (region : Nat) : MpuRegs :=
  if region < t.numRegions then { regs with rnr := region } else regs

def set (regs : MpuRegs) (f : RegionWords → RegionWords) : MpuRegs :=
  { regs with words := Function.update regs.words regs.rnr (f (regs.words regs.rnr)) }

/-- RBAR has a region field, which counts when its VALID bit is set, only where there is no
limit register. -/
def rbarSelect (t : MpuType) (regs : MpuRegs) (value : Reg) : MpuRegs :=
  if !t.hasLimit && value.getLsbD 4 then regs.select t (value.setWidth 4).toNat else regs

def write (t : MpuType) (regs : MpuRegs) : MpuWrite → MpuRegs
  | .ctrl value => { regs with ctrl := value }
  | .rnr value => regs.select t (value.setWidth 8).toNat
  | .rbar value => (regs.rbarSelect t value).set fun w => { w with rbar := value }
  | .rasr value | .rlar value => regs.set fun w => { w with attrs := value }

end MpuRegs

/-- The unit's own function for a register. -/
def Mpu.write (m : Mpu) : MpuWrite → Mpu
  | .ctrl value => m.setCtrl value
  | .rnr value => m.setRnr value
  | .rbar value => if m.mpuType.hasLimit then m.setRbarV8m value else m.setRbarV7m value
  | .rasr value => m.setRasrV7m value
  | .rlar value => m.setRlarV8m value

/-! ## Regions show their words -/

/-- A region that was set up from its words. A region with a limit that was never written still
has its initial permission and limit, which are not those of the words; it is disabled. -/
def MpuRegion.Shows (t : MpuType) (w : RegionWords) (r : MpuRegion) : Prop :=
  if t.hasLimit then
    (r = {} ∧ w = {}) ∨ ∃ size, r = ({ size } : MpuRegion).configureV8m w.rbar w.attrs
  else r = ({} : MpuRegion).configureV7m w.rbar w.attrs

theorem AccessPermission.toApV8m_fromApV8m (ap : BitVec 2) : (fromApV8m ap).toApV8m = ap := by
  revert ap
  decide

theorem getLsbD_addrMask : ∀ i < 32, MpuRegion.addrMask.getLsbD i = decide (5 ≤ i) := by
  decide +kernel

theorem getLsbD_limitMask : ∀ i < 32, (0x1F : Reg).getLsbD i = decide (i < 5) := by
  decide +kernel

theorem getLsbD_flag (b : Bool) (i : Nat) :
    (if b then 1 else 0 : Reg).getLsbD i = (b && decide (i = 0)) := by
  cases b <;> simp

theorem getLsbD_pxnFlag (b : Bool) :
    ∀ i < 32, (if b then (0x10 : Reg) else 0).getLsbD i = (b && decide (i = 4)) := by
  cases b <;> decide +kernel

theorem rbar_fields (x : Reg) :
    ((x &&& MpuRegion.addrMask &&& MpuRegion.addrMask) ||| (x.extractLsb' 3 2).setWidth 32 <<< 3 |||
      (x.extractLsb' 1 2).setWidth 32 <<< 1 ||| (if x.getLsbD 0 then 1 else 0 : Reg)) = x := by
  refine BitVec.eq_of_getLsbD_eq fun i hi => ?_
  simp only [BitVec.getLsbD_or, BitVec.getLsbD_and, BitVec.getLsbD_shiftLeft,
    BitVec.getLsbD_setWidth, BitVec.getLsbD_extractLsb', getLsbD_addrMask i hi, getLsbD_flag]
  grind

theorem rlar_fields (x : Reg) :
    (((x ||| (0x1F : Reg)) &&& MpuRegion.addrMask) |||
      (if x.getLsbD 4 then (0x10 : Reg) else 0) |||
      (x.extractLsb' 1 3).setWidth 32 <<< 1 ||| (if x.getLsbD 0 then 1 else 0 : Reg)) = x := by
  refine BitVec.eq_of_getLsbD_eq fun i hi => ?_
  simp only [BitVec.getLsbD_or, BitVec.getLsbD_and, BitVec.getLsbD_shiftLeft,
    BitVec.getLsbD_setWidth, BitVec.getLsbD_extractLsb', getLsbD_addrMask i hi,
    getLsbD_limitMask i hi, getLsbD_pxnFlag _ i hi, getLsbD_flag]
  grind

@[simp] theorem MpuRegion.getRbarV8m_configureV8m (r : MpuRegion) (rbar rlar : Reg) :
    (r.configureV8m rbar rlar).getRbarV8m = rbar := by
  simp only [getRbarV8m, configureV8m, AccessPermission.toApV8m_fromApV8m]
  exact rbar_fields rbar

@[simp] theorem MpuRegion.getRlarV8m_configureV8m (r : MpuRegion) (rbar rlar : Reg) :
    (r.configureV8m rbar rlar).getRlarV8m = rlar := by
  simp only [getRlarV8m, configureV8m]
  exact rlar_fields rlar

theorem MpuRegion.shows_new (t : MpuType) : MpuRegion.Shows t {} {} := by
  unfold Shows
  split
  · exact .inl ⟨rfl, rfl⟩
  · decide

section

variable {t : MpuType} {w : RegionWords} {r : MpuRegion}

theorem MpuRegion.Shows.configureV8m (ht : t.hasLimit) (h : r.Shows t w) (w' : RegionWords) :
    (r.configureV8m w'.rbar w'.attrs).Shows t w' := by
  simp only [Shows, ht, if_true] at h ⊢
  right
  rcases h with ⟨rfl, rfl⟩ | ⟨size, rfl⟩
  · exact ⟨0, rfl⟩
  · exact ⟨_, rfl⟩

theorem MpuRegion.Shows.getRbarV8m (ht : t.hasLimit) (h : r.Shows t w) :
    r.getRbarV8m = w.rbar := by
  simp only [Shows, ht, if_true] at h
  rcases h with ⟨rfl, rfl⟩ | ⟨size, rfl⟩
  · decide
  · simp

theorem MpuRegion.Shows.getRlarV8m (ht : t.hasLimit) (h : r.Shows t w) :
    r.getRlarV8m = w.attrs := by
  simp only [Shows, ht, if_true] at h
  rcases h with ⟨rfl, rfl⟩ | ⟨size, rfl⟩
  · decide
  · simp

theorem MpuRegion.Shows.setBase (ht : ¬t.hasLimit) (h : r.Shows t w) (value : Reg) :
    ({ r with base := value &&& addrMask } : MpuRegion).Shows t { w with rbar := value } := by
  simp only [Shows, ht] at h ⊢
  subst h
  rfl

theorem MpuRegion.Shows.configureV7m (ht : ¬t.hasLimit) (h : r.Shows t w) (value : Reg) :
    (r.configureV7m r.base value).Shows t { w with attrs := value } := by
  simp only [Shows, ht] at h ⊢
  subst h
  simp [MpuRegion.configureV7m, BitVec.and_assoc]

end

/-! ## The unit shows the register file -/

structure Mpu.Shows (t : MpuType) (regs : MpuRegs) (m : Mpu) : Prop where
  mpuType : m.mpuType = t
  length : m.regions.length = t.numRegions
  selected : m.selectedRegion = regs.rnr
  enabled : m.enabled = regs.ctrl.getLsbD 0
  privdefena : m.privdefena = regs.ctrl.getLsbD 2
  regions : ∀ i, ∀ r : MpuRegion, m.regions[i]? = some r → r.Shows t (regs.words i)

namespace Mpu

theorem shows_new (t : MpuType) : (Mpu.new t).Shows t {} where
  mpuType := rfl
  length := by simp [Mpu.new]
  selected := rfl
  enabled := rfl
  privdefena := rfl
  regions i r h := by
    have hr : r = {} := by
      simp only [Mpu.new, List.getElem?_replicate] at h
      grind
    subst hr
    exact MpuRegion.shows_new t

variable {t : MpuType} {regs : MpuRegs} {m : Mpu}

theorem Shows.select (h : m.Shows t regs) (region : Nat) :
    (m.select region).Shows t (regs.select t region) := by
  unfold Mpu.select MpuRegs.select
  rw [h.length]
  split
  · exact { h with selected := rfl }
  · exact h

theorem Shows.modifySelected (h : m.Shows t regs) {f : MpuRegion → MpuRegion}
    {g : RegionWords → RegionWords}
    (hf : ∀ (r : MpuRegion) (w : RegionWords), r.Shows t w → (f r).Shows t (g w)) :
    (m.modifySelected f).Shows t (regs.set g) where
  mpuType := h.mpuType
  length := by simp [Mpu.modifySelected, h.length]
  selected := h.selected
  enabled := h.enabled
  privdefena := h.privdefena
  regions i r hr := by
    obtain ⟨r₀, hr₀, rfl⟩ : ∃ r₀, m.regions[i]? = some r₀ ∧
        (if regs.rnr = i then f r₀ else r₀) = r := by
      simpa [Mpu.modifySelected, List.getElem?_modify, h.selected] using hr
    have hi := h.regions i r₀ hr₀
    by_cases hsel : regs.rnr = i
    · subst hsel
      simpa [MpuRegs.set] using hf r₀ _ hi
    · simpa [MpuRegs.set, hsel, Function.update_of_ne (Ne.symm hsel)] using hi

theorem Shows.write (h : m.Shows t regs) (op : MpuWrite) (hop : op.isOf t = true) :
    (m.write op).Shows t (regs.write t op) := by
  cases op with
  | ctrl value => exact { h with enabled := rfl, privdefena := rfl }
  | rnr value => exact h.select _
  | rbar value =>
    unfold Mpu.write MpuRegs.write MpuRegs.rbarSelect
    by_cases ht : t.hasLimit
    · simp only [h.mpuType, ht, if_true, Bool.not_true, Bool.false_and]
      refine h.modifySelected fun r w hr => ?_
      rw [hr.getRlarV8m ht]
      exact hr.configureV8m ht { w with rbar := value }
    · simp only [h.mpuType, ht, Bool.not_false, Bool.true_and]
      unfold setRbarV7m
      split
      · exact (h.select _).modifySelected fun r w hr => hr.setBase ht value
      · exact h.modifySelected fun r w hr => hr.setBase ht value
  | rasr value =>
    have ht : ¬t.hasLimit := by simpa [MpuWrite.isOf] using hop
    exact h.modifySelected fun r w hr => hr.configureV7m ht value
  | rlar value =>
    have ht : t.hasLimit := hop
    unfold Mpu.write MpuRegs.write setRlarV8m
    refine h.modifySelected fun r w hr => ?_
    rw [hr.getRbarV8m ht]
    exact hr.configureV8m ht { w with attrs := value }

theorem Shows.writes (h : m.Shows t regs) (ops : List MpuWrite)
    (hops : ∀ op ∈ ops, op.isOf t = true) :
    (ops.foldl Mpu.write m).Shows t (ops.foldl (MpuRegs.write t) regs) := by
  induction ops generalizing m regs with
  | nil => exact h
  | cons op ops ih =>
    refine ih (h.write op (hops op List.mem_cons_self)) fun op' hop' => ?_
    exact hops op' (List.mem_cons_of_mem op hop')

end Mpu

/-! ## The region of an address -/

theorem RegionWords.toNat_sizeV7m {w : RegionWords} (h4 : 4 ≤ w.sizeField) (htop : w.top < 2 ^ 32) :
    (MpuRegion.sizeV7m w.attrs).toNat = 2 ^ (w.sizeField + 1) := by
  have hpow : 2 ^ (w.sizeField + 1) < 2 ^ 32 := by
    unfold top at htop
    omega
  have hlt : w.sizeField + 1 < 32 := (Nat.pow_lt_pow_iff_right (by decide)).mp hpow
  have hsize : MpuRegion.sizeV7m w.attrs = (1 : Reg) <<< (w.sizeField + 1) := by
    unfold MpuRegion.sizeV7m
    simp only [sizeField] at h4 hlt ⊢
    rw [if_pos h4, Nat.mod_eq_of_lt hlt]
  have hone : (1 : Reg).toNat = 1 := rfl
  rw [hsize, BitVec.toNat_shiftLeft, hone, Nat.one_shiftLeft, Nat.mod_eq_of_lt hpow]

theorem RegionWords.sizeV7m_eq_zero {w : RegionWords} (h4 : ¬4 ≤ w.sizeField) :
    MpuRegion.sizeV7m w.attrs = 0 := by
  unfold MpuRegion.sizeV7m
  exact if_neg h4

section

variable {w : RegionWords} {addr : Reg}

/-- The region that the words of a region without a limit set up. -/
def RegionWords.sized (w : RegionWords) : MpuRegion :=
  ({} : MpuRegion).configureV7m w.rbar w.attrs

/-- An enabled region with a size that starts at or below an address ends below the top of the
address space. -/
def RegionWords.EndsBelowTop (w : RegionWords) (addr : Nat) : Prop :=
  w.enabled → 4 ≤ w.sizeField → w.base ≤ addr → w.top < 2 ^ 32

theorem RegionWords.containsV7m_sized (htop : w.EndsBelowTop addr.toNat) :
    w.sized.containsV7m addr =
      (w.enabled && decide (4 ≤ w.sizeField) && decide (w.base ≤ addr.toNat) &&
        decide (addr.toNat < w.top)) := by
  have hen : w.sized.enabled = w.enabled := rfl
  have hbase : w.sized.base.toNat = w.base := rfl
  have hsize : w.sized.size = MpuRegion.sizeV7m w.attrs := rfl
  unfold MpuRegion.containsV7m
  simp only [hen, hsize, BitVec.le_def, BitVec.lt_def, BitVec.toNat_add, hbase]
  by_cases h : w.enabled = true ∧ 4 ≤ w.sizeField ∧ w.base ≤ addr.toNat
  · obtain ⟨he, h4, hb⟩ := h
    have ht := htop he h4 hb
    have hs := RegionWords.toNat_sizeV7m h4 ht
    have hne : (MpuRegion.sizeV7m w.attrs == 0) = false := by
      rw [beq_eq_false_iff_ne]
      intro h0
      have hpos := Nat.two_pow_pos (w.sizeField + 1)
      rw [← hs, h0] at hpos
      exact absurd hpos (by decide)
    have hsum : (w.base + 2 ^ (w.sizeField + 1)) % 2 ^ 32 = w.top := Nat.mod_eq_of_lt ht
    simp only [he, h4, hb, hne, hs, hsum, decide_true, Bool.not_true, Bool.or_self, Bool.and_self,
      Bool.false_eq_true, if_false, Bool.true_and]
  · by_cases he : w.enabled = true
    · by_cases h4 : 4 ≤ w.sizeField
      · have hb : ¬w.base ≤ addr.toNat := fun hb => h ⟨he, h4, hb⟩
        simp [hb]
      · simp [h4, RegionWords.sizeV7m_eq_zero h4]
    · simp [he]

/-- The subregion rule in numbers. The division is by a nonzero size. -/
theorem MpuRegion.isSubregionDisabled_eq (r : MpuRegion) (addr : Reg) :
    r.isSubregionDisabled addr = some (decide (256 ≤ r.size.toNat) &&
      r.attr.srd.getLsbD ((addr - r.base).toNat / (r.size.toNat / 8) % 256 % 8)) := by
  unfold isSubregionDisabled
  by_cases hsize : r.size < 256
  · have hn : ¬256 ≤ r.size.toNat := Nat.not_le.mpr hsize
    rw [if_pos (by rw [decide_eq_true hsize, Bool.true_or]), decide_eq_false hn, Bool.false_and]
  · have hn : 256 ≤ r.size.toNat := Nat.not_lt.mp hsize
    by_cases hsrd : r.attr.srd = 0
    · rw [if_pos (by simp [hsrd]), hsrd]
      simp
    · have hdiv : (r.size / 8).toNat = r.size.toNat / 8 := BitVec.toNat_udiv
      have hne : ¬r.size / 8 = 0 := by
        intro h0
        rw [h0] at hdiv
        have : r.size.toNat / 8 = 0 := hdiv.symm
        omega
      have hgo : ¬(decide (r.size < 256) || r.attr.srd == 0) = true := by
        rw [decide_eq_false hsize, Bool.false_or]
        simpa using hsrd
      rw [if_neg hgo, if_neg hne, decide_eq_true hn, Bool.true_and]
      dsimp only
      rw [BitVec.toNat_setWidth, BitVec.toNat_udiv, hdiv]

theorem RegionWords.isSubregionDisabled_sized (h4 : 4 ≤ w.sizeField) (hb : w.base ≤ addr.toNat)
    (hlt : addr.toNat < w.top) (htop : w.top < 2 ^ 32) :
    w.sized.isSubregionDisabled addr = some (w.subregionDisabled addr.toNat) := by
  have hsize : w.sized.size.toNat = 2 ^ (w.sizeField + 1) := RegionWords.toNat_sizeV7m h4 htop
  have hoff : (addr - w.sized.base).toNat = addr.toNat - w.base :=
    BitVec.toNat_sub_of_le hb
  rw [MpuRegion.isSubregionDisabled_eq, hsize, hoff]
  unfold subregionDisabled
  by_cases h7 : 7 ≤ w.sizeField
  · have h256 : 256 ≤ 2 ^ (w.sizeField + 1) :=
      Nat.pow_le_pow_right Nat.two_pos (show 8 ≤ w.sizeField + 1 by omega)
    have hpow : 2 ^ (w.sizeField + 1) = 2 ^ (w.sizeField - 2) * 8 := by
      rw [show w.sizeField + 1 = w.sizeField - 2 + 3 by omega, Nat.pow_add]
    have hsub : 2 ^ (w.sizeField + 1) / 8 = 2 ^ (w.sizeField - 2) := by
      rw [hpow, Nat.mul_div_cancel _ (by decide)]
    have hnum : (addr.toNat - w.base) / 2 ^ (w.sizeField - 2) < 8 := by
      rw [Nat.div_lt_iff_lt_mul (Nat.two_pow_pos _), Nat.mul_comm, ← hpow]
      unfold top at hlt
      omega
    have hbit : ∀ n < 8, w.sized.attr.srd.getLsbD n = w.attrs.getLsbD (8 + n) := by
      intro n hn
      have : w.sized.attr.srd = w.attrs.extractLsb' 8 8 := rfl
      rw [this, BitVec.getLsbD_extractLsb', decide_eq_true hn, Bool.true_and]
    rw [hsub, Nat.mod_eq_of_lt (show _ < 256 by omega), Nat.mod_eq_of_lt hnum, hbit _ hnum,
      decide_eq_true h256, decide_eq_true h7]
  · have h256 : ¬256 ≤ 2 ^ (w.sizeField + 1) := by
      rw [Nat.not_le]
      exact Nat.pow_lt_pow_right (by decide) (show w.sizeField + 1 < 8 by omega)
    rw [decide_eq_false h256, decide_eq_false h7, Bool.false_and, Bool.false_and]

/-- A region without a limit, as its words say it. -/
theorem RegionWords.testV7m_sized {t : MpuType} (ht : t.hasLimit = false)
    (htop : w.EndsBelowTop addr.toNat) :
    Mpu.testV7m addr w.sized = some (w.covers t addr.toNat) := by
  unfold Mpu.testV7m covers
  rw [RegionWords.containsV7m_sized htop, ht]
  by_cases h : w.enabled = true ∧ 4 ≤ w.sizeField ∧ w.base ≤ addr.toNat ∧ addr.toNat < w.top
  · obtain ⟨he, h4, hb, hlt⟩ := h
    rw [RegionWords.isSubregionDisabled_sized h4 hb hlt (htop he h4 hb)]
    simp [he, h4, hb, hlt]
  · have hin : (w.enabled && decide (4 ≤ w.sizeField) && decide (w.base ≤ addr.toNat) &&
        decide (addr.toNat < w.top)) = false := by
      rw [Bool.eq_false_iff]
      intro hall
      simp only [Bool.and_eq_true, decide_eq_true_eq] at hall
      exact h ⟨hall.1.1.1, hall.1.1.2, hall.1.2, hall.2⟩
    simp [hin]

end

/-- The search from the highest-numbered region down. -/
theorem Mpu.findFirst_reverse {test : MpuRegion → Option Bool} (xs : List MpuRegion)
    (htotal : ∀ r ∈ xs, (test r).isSome) :
    (∃ (i : Nat) (r : MpuRegion), xs[i]? = some r ∧ test r = some true ∧
      (∀ j : Nat, i < j → ∀ r', xs[j]? = some r' → test r' = some false) ∧
      findFirst test xs.reverse = some (some r)) ∨
    ((∀ r ∈ xs, test r = some false) ∧ findFirst test xs.reverse = some none) := by
  induction xs using List.reverseRecOn with
  | nil => exact .inr ⟨by simp, rfl⟩
  | append_singleton xs x ih =>
    obtain ⟨b, hb⟩ := Option.isSome_iff_exists.mp (htotal x (by simp))
    rw [List.reverse_append, List.reverse_singleton, List.singleton_append]
    cases b with
    | true =>
      refine .inl ⟨xs.length, x, by simp, hb, ?_, by simp [findFirst, hb]⟩
      intro j hj r' hr'
      have hlt := (List.getElem?_eq_some_iff.mp hr').1
      simp at hlt
      omega
    | false =>
      have hfind : findFirst test (x :: xs.reverse) = findFirst test xs.reverse := by
        simp [findFirst, hb]
      rw [hfind]
      rcases ih fun r hr => htotal r (by simp [hr]) with ⟨i, r, hi, ht, hlater, hf⟩ | ⟨hnone, hf⟩
      · have hilt := (List.getElem?_eq_some_iff.mp hi).1
        refine .inl ⟨i, r, by rw [List.getElem?_append_left hilt, hi], ht, ?_, hf⟩
        intro j hj r' hr'
        by_cases hjl : j < xs.length
        · rw [List.getElem?_append_left hjl] at hr'
          exact hlater j hj r' hr'
        · have hr : r' = x := by
            have := List.mem_of_getElem? hr'
            rw [List.getElem?_append_right (by omega)] at hr'
            have h0 := (List.getElem?_eq_some_iff.mp hr').1
            simp at h0
            simp [h0] at hr'
            exact hr'.symm
          exact hr ▸ hb
      · refine .inr ⟨?_, hf⟩
        intro r hr
        rcases List.mem_append.mp hr with hr | hr
        · exact hnone r hr
        · exact List.mem_singleton.mp hr ▸ hb

/-! ## The check -/

/-- Whether the unit finds an address in a region. -/
def Mpu.test (t : MpuType) (addr : Reg) (r : MpuRegion) : Option Bool :=
  if t.hasLimit then some (r.containsV8m addr) else testV7m addr r

theorem Mpu.isSome_test (t : MpuType) (addr : Reg) (r : MpuRegion) : (test t addr r).isSome := by
  unfold test testV7m
  rw [r.isSubregionDisabled_eq addr]
  split
  · rfl
  · split <;> rfl

theorem Mpu.findRegion_eq (m : Mpu) (addr : Reg) (hen : m.enabled = true) :
    m.findRegion addr = findFirst (test m.mpuType addr) m.regions.reverse := by
  unfold findRegion test MpuType.hasLimit
  cases h : (m.mpuType.isV8m || m.mpuType.isV8r) <;> simp [hen]

section

variable {t : MpuType} {w : RegionWords} {r : MpuRegion} {addr : Reg}

theorem MpuRegion.Shows.test_eq (h : r.Shows t w)
    (htop : t.hasLimit = false → w.EndsBelowTop addr.toNat) :
    Mpu.test t addr r = some (w.covers t addr.toNat) := by
  cases ht : t.hasLimit with
  | true =>
    simp only [Shows, ht, if_true] at h
    simp only [Mpu.test, RegionWords.covers, ht, if_true]
    rcases h with ⟨rfl, rfl⟩ | ⟨size, rfl⟩
    · rfl
    · have hen : (({ size } : MpuRegion).configureV8m w.rbar w.attrs).enabled = w.enabled := rfl
      have hb : (({ size } : MpuRegion).configureV8m w.rbar w.attrs).base.toNat = w.base := rfl
      have hl : (({ size } : MpuRegion).configureV8m w.rbar w.attrs).limit.toNat = w.limit := rfl
      simp only [MpuRegion.containsV8m, hen, BitVec.le_def, hb, hl]
      cases w.enabled <;> simp
  | false =>
    simp only [Shows, ht] at h
    have hr : r = w.sized := h
    simp only [Mpu.test, ht, Bool.false_eq_true, if_false, hr]
    exact RegionWords.testV7m_sized ht (htop ht)

/-- A region with one permission, whichever of its two formats holds it. -/
theorem MpuRegion.permits_eq {p : AccessPermission} (hxn : r.xn = w.xn t) (hpxn : r.pxn = w.pxn t)
    (hp : w.permission t = p)
    (hread : ∀ privileged, (r.attr.accessPermission.canRead privileged ||
      r.permissions.canRead privileged) = p.canRead privileged)
    (hwrite : ∀ privileged, (r.attr.accessPermission.canWrite privileged ||
      r.permissions.canWrite privileged) = p.canWrite privileged)
    (access : AccessType) (privileged : Bool) :
    Mpu.permits r access privileged = w.permits t access privileged := by
  cases access with
  | instructionFetch =>
    simp only [Mpu.permits, RegionWords.permits, hread, hxn, hpxn, hp]
    cases w.xn t <;> cases privileged && w.pxn t <;> simp
  | read => simp only [Mpu.permits, RegionWords.permits, hread, hp]
  | atomic => simp only [Mpu.permits, RegionWords.permits, hread, hp]
  | write => simp only [Mpu.permits, RegionWords.permits, hwrite, hp]

theorem AccessPermission.canRead_none (privileged : Bool) : none.canRead privileged = false := by
  cases privileged <;> rfl

theorem AccessPermission.canWrite_none (privileged : Bool) : none.canWrite privileged = false := by
  cases privileged <;> rfl

/-- An enabled region permits what its words permit: the permission in the other register format
is no access. -/
theorem MpuRegion.Shows.permits_eq (h : r.Shows t w) (hen : w.enabled = true) (access : AccessType)
    (privileged : Bool) : Mpu.permits r access privileged = w.permits t access privileged := by
  cases ht : t.hasLimit with
  | true =>
    simp only [Shows, ht, if_true] at h
    rcases h with ⟨-, rfl⟩ | ⟨size, rfl⟩
    · exact absurd hen (by decide)
    · have hap : (({ size } : MpuRegion).configureV8m w.rbar w.attrs).attr.accessPermission =
          .none := rfl
      apply MpuRegion.permits_eq (p := .fromApV8m (w.rbar.extractLsb' 1 2))
      · simp only [RegionWords.xn, ht, if_true]
        rfl
      · simp only [RegionWords.pxn, ht, Bool.true_and]
        rfl
      · simp only [RegionWords.permission, ht, if_true]
      · intro p
        rw [hap, AccessPermission.canRead_none, Bool.false_or]
        rfl
      · intro p
        rw [hap, AccessPermission.canWrite_none, Bool.false_or]
        rfl
  | false =>
    simp only [Shows, ht] at h
    have hr : r = w.sized := h
    have hp : w.sized.permissions = .none := rfl
    subst hr
    apply MpuRegion.permits_eq (p := .fromApBitsV7m (w.attrs.extractLsb' 24 3))
    · simp only [RegionWords.xn, ht]
      rfl
    · simp only [RegionWords.pxn, ht, Bool.false_and]
      rfl
    · simp only [RegionWords.permission, ht]
      rfl
    · intro p
      rw [hp, AccessPermission.canRead_none, Bool.or_false]
      rfl
    · intro p
      rw [hp, AccessPermission.canWrite_none, Bool.or_false]
      rfl

end

namespace MpuRegs

/-- The highest-numbered region that covers an address. -/
def IsRegionOf (t : MpuType) (regs : MpuRegs) (addr i : Nat) : Prop :=
  i < t.numRegions ∧ (regs.words i).covers t addr = true ∧
    ∀ j, i < j → j < t.numRegions → (regs.words j).covers t addr = false

/-- The search from the top tests a region, if none above it covers the address. -/
def Tests (t : MpuType) (regs : MpuRegs) (addr i : Nat) : Prop :=
  ∀ j, i < j → j < t.numRegions → (regs.words j).covers t addr = false

/-- What the registers say about an access to the byte at an address. -/
def Allows (t : MpuType) (regs : MpuRegs) (addr : Nat) (access : AccessType) (privileged : Bool) :
    Prop :=
  (∃ i, regs.IsRegionOf t addr i ∧ (regs.words i).permits t access privileged = true) ∨
    ((∀ i < t.numRegions, (regs.words i).covers t addr = false) ∧ regs.ctrl.getLsbD 2 = true ∧
      privileged = true)

theorem IsRegionOf.unique {t : MpuType} {regs : MpuRegs} {addr i j : Nat}
    (hi : regs.IsRegionOf t addr i) (hj : regs.IsRegionOf t addr j) : i = j := by
  obtain ⟨hilt, hicov, hilast⟩ := hi
  obtain ⟨hjlt, hjcov, hjlast⟩ := hj
  rcases Nat.lt_trichotomy i j with h | h | h
  · rw [hilast j h hjlt] at hjcov
    cases hjcov
  · exact h
  · rw [hjlast i h hilt] at hicov
    cases hicov

end MpuRegs

theorem RegionWords.enabled_of_covers {t : MpuType} {w : RegionWords} {addr : Nat}
    (h : w.covers t addr = true) : w.enabled = true := by
  unfold covers at h
  cases hen : w.enabled with
  | true => rfl
  | false => simp [hen] at h

/-- The check of a unit that shows a register file, if no region that it tests reaches the top of
the address space. -/
theorem Mpu.Shows.checkAccess {t : MpuType} {regs : MpuRegs} {m : Mpu} (h : m.Shows t regs)
    (hen : m.enabled = true) {addr : Reg}
    (htop : t.hasLimit = false → ∀ i < t.numRegions, regs.Tests t addr.toNat i →
      (regs.words i).EndsBelowTop addr.toNat)
    (size : Reg) (access : AccessType) (privileged : Bool) :
    m.checkAccess addr size access privileged = some (.ok ()) ↔
      regs.Allows t addr.toNat access privileged := by
  have htest (i : Nat) (r : MpuRegion) (hr : m.regions[i]? = some r)
      (hreach : regs.Tests t addr.toNat i) :
      test t addr r = some ((regs.words i).covers t addr.toNat) := by
    have hi : i < t.numRegions := h.length ▸ (List.getElem?_eq_some_iff.mp hr).1
    exact (h.regions i r hr).test_eq fun ht => htop ht i hi hreach
  have hget : ∀ i < t.numRegions, ∃ r, m.regions[i]? = some r := by
    intro i hi
    exact ⟨_, List.getElem?_eq_getElem (h.length.symm ▸ hi)⟩
  -- Downwards from the last region: those the search has passed do not cover the address.
  have hpassed (i : Nat) (hfalse : ∀ j, i ≤ j → ∀ r, m.regions[j]? = some r →
      test t addr r = some false) (j : Nat) (hij : i ≤ j) (hj : j < t.numRegions) :
      (regs.words j).covers t addr.toNat = false := by
    induction hd : t.numRegions - j using Nat.strong_induction_on generalizing j with
    | _ d ih =>
      obtain ⟨r, hr⟩ := hget j hj
      have heq := htest j r hr fun k hk hlt => ih _ (by omega) k (by omega) hlt rfl
      rw [hfalse j hij r hr] at heq
      exact (Option.some.inj heq).symm
  have hcheck : m.checkAccess addr size access privileged = (m.findRegion addr).bind fun o =>
      o.elim (if m.privdefena && privileged then some (.ok ()) else some (.error ⟨addr, access⟩))
        fun r => if permits r access privileged then some (.ok ())
          else some (.error ⟨addr, access⟩) := by
    simp only [Mpu.checkAccess, hen]
    cases m.findRegion addr with
    | none => rfl
    | some o => cases o <;> rfl
  rw [hcheck, m.findRegion_eq addr hen, h.mpuType]
  rcases Mpu.findFirst_reverse m.regions (fun r _ => isSome_test t addr r) with
    ⟨i, r, hr, ht, hlater, hf⟩ | ⟨hnone, hf⟩
  · have hi : i < t.numRegions := h.length ▸ (List.getElem?_eq_some_iff.mp hr).1
    have hreach : regs.Tests t addr.toNat i := hpassed (i + 1) fun j hij => hlater j hij
    have hcov : (regs.words i).covers t addr.toNat = true := by
      rw [htest i r hr hreach] at ht
      exact Option.some.inj ht
    have hregion : regs.IsRegionOf t addr.toNat i := ⟨hi, hcov, hreach⟩
    have hpermits := (h.regions i r hr).permits_eq (RegionWords.enabled_of_covers hcov) access
      privileged
    rw [hf]
    simp only [Option.bind_some, Option.elim_some, hpermits]
    constructor
    · intro hok
      refine .inl ⟨i, hregion, ?_⟩
      by_contra hno
      rw [if_neg hno] at hok
      cases hok
    · rintro (⟨j, hj, hp⟩ | ⟨hall, -⟩)
      · rw [hj.unique hregion] at hp
        rw [if_pos hp]
      · rw [hall i hi] at hcov
        cases hcov
  · have hall : ∀ i < t.numRegions, (regs.words i).covers t addr.toNat = false := fun i =>
      hpassed 0 (fun j _ r hr => hnone r (List.mem_of_getElem? hr)) i (Nat.zero_le i)
    rw [hf]
    simp only [Option.bind_some, Option.elim_none, h.privdefena]
    constructor
    · intro hok
      refine .inr ⟨hall, ?_⟩
      rw [← Bool.and_eq_true]
      by_contra hno
      rw [if_neg hno] at hok
      cases hok
    · rintro (⟨i, ⟨hi, hcov, -⟩, -⟩ | ⟨-, hpriv, hp⟩)
      · rw [hall i hi] at hcov
        cases hcov
      · rw [if_pos (by rw [hpriv, hp]; rfl)]

theorem Mpu.isSome_checkAccess (m : Mpu) (addr size : Reg) (access : AccessType)
    (privileged : Bool) : (m.checkAccess addr size access privileged).isSome := by
  unfold checkAccess
  cases hen : m.enabled with
  | false => rfl
  | true =>
    rw [m.findRegion_eq addr hen]
    rcases findFirst_reverse m.regions (fun r _ => isSome_test m.mpuType addr r) with
      ⟨i, r, -, -, -, hf⟩ | ⟨-, hf⟩
    · rw [hf]
      cases hp : permits r access privileged <;> simp [hp]
    · rw [hf]
      cases m.privdefena && privileged <;> simp

/-- The unit and the register file after a sequence of writes. -/
def Mpu.after (t : MpuType) (ops : List MpuWrite) : Mpu := ops.foldl Mpu.write (Mpu.new t)

def MpuRegs.after (t : MpuType) (ops : List MpuWrite) : MpuRegs := ops.foldl (MpuRegs.write t) {}

/-- After any register writes a check does not panic, and while the unit is enabled it allows an
access exactly when the registers allow its first byte, unless a sized region that starts at or
below that byte, with no region above that covers it, reaches the top of the address space. -/
theorem check_access_first_byte (t : MpuType) (ops : List MpuWrite)
    (hops : ∀ op ∈ ops, op.isOf t = true) (addr size : Reg) (access : AccessType)
    (privileged : Bool) :
    ((Mpu.after t ops).checkAccess addr size access privileged).isSome ∧
      ((MpuRegs.after t ops).ctrl.getLsbD 0 = true →
        (t.hasLimit = false → ∀ i < t.numRegions, (MpuRegs.after t ops).Tests t addr.toNat i →
          ((MpuRegs.after t ops).words i).EndsBelowTop addr.toNat) →
        ((Mpu.after t ops).checkAccess addr size access privileged = some (.ok ()) ↔
          (MpuRegs.after t ops).Allows t addr.toNat access privileged)) := by
  refine ⟨Mpu.isSome_checkAccess _ addr size access privileged, fun hctrl htop => ?_⟩
  have hshows := (Mpu.shows_new t).writes ops hops
  exact hshows.checkAccess (hshows.enabled.trans hctrl) htop size access privileged

/-- Region 0 at `[0x20000000, 0x20000020)` with full access, and the unit enabled. -/
def sampleMpuWrites : List MpuWrite :=
  [.rnr 0, .rbar 0x20000000, .rasr 0x03000009, .ctrl 1]

/-- The same as region 1, over a region 0 of 4 GiB without access. -/
def overlaidMpuWrites : List MpuWrite := [.rnr 0, .rasr 0x3F, .rnr 1] ++ sampleMpuWrites.tail

theorem overlaid_region_allows :
    (Mpu.after .v7m8 overlaidMpuWrites).checkAccess 0x20000010 4 .write false = some (.ok ()) ↔
      (MpuRegs.after .v7m8 overlaidMpuWrites).Allows .v7m8 0x20000010 .write false := by
  refine (check_access_first_byte .v7m8 overlaidMpuWrites (by decide) 0x20000010 4 .write false).2
    (by decide) fun _ i hi htests => ?_
  by_cases hzero : i = 0
  · subst hzero
    exact absurd (htests 1 (by decide) (by decide)) (by decide)
  · clear htests
    revert i
    unfold RegionWords.EndsBelowTop
    decide

/-- A four-byte read that starts two bytes before the end of the only region is allowed, although
no region covers its last two bytes and the background map is off. -/
theorem read_past_region_allowed :
    (Mpu.after .v7m8 sampleMpuWrites).checkAccess 0x2000001E 4 .read false = some (.ok ()) ∧
      (∀ i < 8, ((MpuRegs.after .v7m8 sampleMpuWrites).words i).covers .v7m8 0x20000020 = false) ∧
      (MpuRegs.after .v7m8 sampleMpuWrites).ctrl.getLsbD 2 = false := by
  decide +kernel

end Rax.CortexM

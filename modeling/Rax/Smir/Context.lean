import Rax.Smir.Flags

/-!
# Register access

How a context resolves register names (`smir/ir/context.rs`). Every name reads and writes
one storage cell through a view, or denotes a constant. Different names can share a cell:
the vector registers at their three widths, registers whose number is reduced, and the
fields of a control and status register. Only the scalar part of a vector register is kept.
-/

namespace Rax.Smir

/-- Storage of one register value. -/
inductive Cell where
  | virt (id : Nat)
  | arch (r : ArchReg)
  deriving DecidableEq, Repr

/-- How a name sees its cell: the whole cell, of which the bits of `mask` are stored, a
read-write field of it, or a read-only field. -/
inductive View where
  | full (mask : Word)
  | field (shift : Nat) (mask : Word)
  | readOnly (shift : Nat) (mask : Word)
  deriving DecidableEq, Repr

namespace View

def get : View → Word → Word
  | full _, content => content
  | field shift mask, content | readOnly shift mask, content => (content >>> shift) &&& mask

def put : View → Word → Word → Word
  | full mask, _, value => value &&& mask
  | field shift mask, old, value =>
    (old &&& ~~~(mask <<< shift)) ||| ((value &&& mask) <<< shift)
  | readOnly _ _, old, _ => old

end View

/-- What a register name denotes. -/
inductive Slot where
  | cell (c : Cell) (view : View)
  | const (value : Word)
  deriving DecidableEq, Repr

namespace Slot

/-- A full-width register kept under its own name. -/
def whole (r : ArchReg) : Slot := cell (.arch r) (.full 0xFFFFFFFFFFFFFFFF)

/-- A register that stores 32 bits. -/
def word32 (r : ArchReg) : Slot := cell (.arch r) (.full 0xFFFFFFFF)

end Slot

/-- `X86RegState::get_gpr_by_reg` and `set_gpr_by_reg`. -/
def x86Slot : X86Reg → Slot
  | .pkru => .word32 (.x86 .pkru)
  | .mm n => .whole (.x86 (.mm (n % 8)))
  | .xmm n | .ymm n | .zmm n => .whole (.x86 (.xmm n))
  | .k n => .whole (.x86 (.k (n % 8)))
  | r => .whole (.x86 r)

def armSlot : ArmReg → Slot
  | .x n => if 31 ≤ n then .const 0 else .whole (.arm (.x n))
  | .nzcv => .word32 (.arm .nzcv)
  | .fpcr => .word32 (.arm .fpcr)
  | .fpsr => .word32 (.arm .fpsr)
  | .sysReg _ => .const 0
  | r => .whole (.arm r)

def hexagonSlot : HexagonReg → Slot
  | .r n => .word32 (.hexagon (.r (n % 32)))
  | .p n => .cell (.arch (.hexagon (.p n))) (.full 0xFF)
  | .m n => .word32 (.hexagon (.m (n % 2)))
  | .cs n => .word32 (.hexagon (.cs (n % 2)))
  | .v n => .whole (.hexagon (.v (n % 32)))
  | .q n => .whole (.hexagon (.q (n % 4)))
  | r => .word32 (.hexagon r)

/-- Control and status registers. `fflags` and `frm` are fields of `fcsr`, `vxsat` and `vxrm`
read-only fields of `vcsr`; `vlenb` is a constant. -/
def csrSlot (n : Nat) : Slot :=
  let fcsr : Cell := .arch (.riscV (.csr 0x003))
  let vcsr : Cell := .arch (.riscV (.csr 0x00f))
  match n with
  | 0x001 => .cell fcsr (.field 0 0x1f)
  | 0x002 => .cell fcsr (.field 5 0x7)
  | 0x003 => .cell fcsr (.full 0xff)
  | 0x008 | 0x00f | 0xc20 | 0xc21 => .whole (.riscV (.csr n))
  | 0x009 => .cell vcsr (.readOnly 0 1)
  | 0x00a => .cell vcsr (.readOnly 1 3)
  | 0x017 => .cell (.arch (.riscV (.csr n))) (.full (~~~0x3f))
  | 0xc22 => .const 16
  | _ => .const 0

def riscVSlot : RiscVReg → Slot
  | .x n => if n = 0 then .const 0 else .whole (.riscV (.x (n % 32)))
  | .v n => .whole (.riscV (.v (n % 32)))
  | .csr n => csrSlot n
  | r => .whole (.riscV r)

/-- `read_vreg` and `write_vreg`: a register of another architecture reads as zero and drops
what is written to it, and so does a constant. -/
def slot (arch : Arch) : VReg → Slot
  | .virt id => .cell (.virt id) (.full 0xFFFFFFFFFFFFFFFF)
  | .imm val => .const val
  | .arch r =>
    match arch, r with
    | .x86, .x86 r => x86Slot r
    | .aarch64, .arm r => armSlot r
    | .hexagon, .hexagon r => hexagonSlot r
    | .riscV, .riscV r => riscVSlot r
    | _, _ => .const 0

/-- The cell a name is stored in, if it is stored. -/
def cellOf (arch : Arch) (r : VReg) : Option Cell :=
  match slot arch r with
  | .cell c _ => some c
  | .const _ => none

/-- Whether two names are stored in one cell. -/
def Shares (arch : Arch) (r d : VReg) : Prop := ∃ c, cellOf arch r = some c ∧ cellOf arch d = some c

instance (arch : Arch) (r d : VReg) : Decidable (Shares arch r d) :=
  match hr : cellOf arch r with
  | none => isFalse (by rintro ⟨c, h, -⟩; rw [hr] at h; cases h)
  | some c =>
    if hd : cellOf arch d = some c then isTrue ⟨c, hr, hd⟩
    else isFalse (by rintro ⟨c', h, h'⟩; rw [hr] at h; cases h; exact hd h')

/-- Architectural names are stored in architectural cells. -/
theorem cellOf_arch_ne_virt (arch : Arch) (a : ArchReg) (id : Nat) :
    cellOf arch (.arch a) ≠ some (.virt id) := by
  cases arch with
  | x86 =>
    cases a with
    | x86 r => cases r <;> simp [cellOf, slot, x86Slot, Slot.whole, Slot.word32]
    | _ => simp [cellOf, slot]
  | aarch64 =>
    cases a with
    | arm r =>
      cases r with
      | x n => by_cases hn : 31 ≤ n <;> simp [cellOf, slot, armSlot, Slot.whole, hn]
      | _ => simp [cellOf, slot, armSlot, Slot.whole, Slot.word32]
    | _ => simp [cellOf, slot]
  | hexagon =>
    cases a with
    | hexagon r => cases r <;> simp [cellOf, slot, hexagonSlot, Slot.whole, Slot.word32]
    | _ => simp [cellOf, slot]
  | riscV =>
    cases a with
    | riscV r =>
      cases r with
      | x n => by_cases hn : n = 0 <;> simp [cellOf, slot, riscVSlot, Slot.whole, hn]
      | csr n =>
        simp only [cellOf, slot, riscVSlot, csrSlot]
        split <;> simp_all [Slot.whole]
        grind
      | _ => simp [cellOf, slot, riscVSlot, Slot.whole]
    | _ => simp [cellOf, slot]

/-- A temporary shares its cell with no other name. -/
theorem eq_of_shares_virt {arch : Arch} {id : Nat} {r : VReg} (h : Shares arch (.virt id) r) :
    r = .virt id := by
  obtain ⟨c, hc, hr⟩ := h
  obtain rfl : Cell.virt id = c := Option.some.inj hc
  cases r with
  | virt n =>
    have hn : Cell.virt n = Cell.virt id := Option.some.inj hr
    rw [Cell.virt.inj hn]
  | arch a => exact absurd hr (cellOf_arch_ne_virt arch a id)
  | imm val => cases hr

theorem eq_of_shares_usr {arch : Arch} {r : VReg} (h : Shares arch r .usr) : r = .usr := by
  obtain ⟨c, hr, hc⟩ := h
  cases arch with
  | hexagon =>
    obtain rfl : Cell.arch (.hexagon .usr) = c := Option.some.inj hc
    cases r with
    | virt n => cases Option.some.inj hr
    | imm val => cases hr
    | arch a =>
      cases a with
      | hexagon r => cases r <;> simp_all [cellOf, slot, hexagonSlot, Slot.whole, Slot.word32]
      | _ => cases hr
  | _ => cases hc

abbrev RegFile := Cell → Word

namespace RegFile

variable {arch : Arch} {s t : RegFile} {r d : VReg}

def read (arch : Arch) (s : RegFile) (r : VReg) : Word :=
  match slot arch r with
  | .cell c view => view.get (s c)
  | .const value => value

def write (arch : Arch) (s : RegFile) (r : VReg) (value : Word) : RegFile :=
  match slot arch r with
  | .cell c view => Function.update s c (view.put (s c) value)
  | .const _ => s

theorem read_write_of_not_shares (h : ¬ Shares arch r d) (v : Word) :
    (s.write arch d v).read arch r = s.read arch r := by
  cases hr : slot arch r with
  | const value => simp [read, hr]
  | cell c view =>
    cases hd : slot arch d with
    | const value => simp [write, hd]
    | cell c' view' =>
      have hne : c ≠ c' := by
        rintro rfl
        exact h ⟨c, by simp [cellOf, hr], by simp [cellOf, hd]⟩
      simp [read, write, hr, hd, Function.update_of_ne hne]

/-- Field reads of a masked word depend only on the same field of the word. -/
private theorem field_of_masked (a b keep x : Word) (shift : Nat) (mask : Word)
    (h : (a >>> shift) &&& mask = (b >>> shift) &&& mask) :
    (((a &&& keep) ||| x) >>> shift) &&& mask = (((b &&& keep) ||| x) >>> shift) &&& mask := by
  have split (v : Word) : (((v &&& keep) ||| x) >>> shift) &&& mask =
      (((v >>> shift) &&& mask) &&& (keep >>> shift)) ||| ((x >>> shift) &&& mask) := by
    ext i hi
    simp
    grind
  rw [split, split, h]

/-- Writing one value through one name keeps two register files equal at a name. -/
theorem read_write_congr (v : Word) (h : s.read arch r = t.read arch r) :
    (s.write arch d v).read arch r = (t.write arch d v).read arch r := by
  by_cases hsh : Shares arch r d
  · obtain ⟨c, hr, hd⟩ := hsh
    cases hsr : slot arch r with
    | const value => simp [cellOf, hsr] at hr
    | cell c₁ view =>
      cases hsd : slot arch d with
      | const value => simp [cellOf, hsd] at hd
      | cell c₂ view' =>
        obtain rfl : c₁ = c := by simpa [cellOf, hsr] using hr
        obtain rfl : c₂ = c₁ := by simpa [cellOf, hsd] using hd
        simp only [read, hsr] at h
        simp only [read, write, hsr, hsd, Function.update_self]
        cases view' with
        | full mask => rfl
        | readOnly shift mask => exact h
        | field shift mask =>
          cases view with
          | full mask' =>
            have heq : s c₂ = t c₂ := h
            rw [heq]
          | field shift' mask' => exact field_of_masked _ _ _ _ _ _ h
          | readOnly shift' mask' => exact field_of_masked _ _ _ _ _ _ h
  · rw [read_write_of_not_shares hsh, read_write_of_not_shares hsh, h]

end RegFile

/-- Whether a name takes the value written to it, up to the bits it stores. -/
def takesWrite (arch : Arch) (r : VReg) : Bool :=
  match slot arch r with
  | .cell _ (.readOnly _ _) => false
  | _ => true

/-- What a written name reads as afterwards does not depend on what was there. -/
theorem RegFile.read_write_self {arch : Arch} {r : VReg} (s t : RegFile) (v : Word)
    (h : takesWrite arch r = true) :
    (s.write arch r v).read arch r = (t.write arch r v).read arch r := by
  cases hr : slot arch r with
  | const value => simp [read, hr]
  | cell c view =>
    cases view with
    | full mask => simp [read, write, hr, View.get, View.put]
    | readOnly shift mask => simp [takesWrite, hr] at h
    | field shift mask =>
      simp only [read, write, hr, Function.update_self, View.get, View.put]
      ext i hi
      simp
      grind

/-- How a result is stored: as it is (`write_vreg`), with x86 sub-register merging of the
unmasked value (`write_gpr`) or of the masked one (`write_x86_partial`), into bits 8 to 15,
or by setting bit 0 (`set_hex_ovf`). -/
inductive WriteMode where
  | raw
  | gpr (width : OpWidth)
  | part (width : OpWidth)
  | highByte
  | setBit0
  deriving DecidableEq, Repr

/-- One register write of an operation. -/
structure RegWrite where
  dst : VReg
  mode : WriteMode
  value : Word
  deriving DecidableEq, Repr

namespace RegWrite

/-- The value passed to `write_vreg`, given what the destination read as before. -/
def merge (w : RegWrite) (old : Word) : Word :=
  match w.mode with
  | .raw => w.value
  | .gpr width =>
    if w.dst.isX86 && width.isSub then
      (old &&& ~~~width.mask) ||| (w.value &&& width.mask)
    else w.value
  | .part width =>
    if w.dst.isX86 && width.isSub then
      (old &&& ~~~width.mask) ||| (w.value &&& width.mask)
    else w.value &&& width.mask
  | .highByte => (old &&& ~~~(0xFF00 : Word)) ||| ((w.value &&& 0xFF) <<< 8)
  | .setBit0 => old ||| 1

/-- Whether the stored value depends on the destination's old value. -/
def merges (w : RegWrite) : Bool :=
  match w.mode with
  | .raw => false
  | .gpr width | .part width => w.dst.isX86 && width.isSub
  | .highByte | .setBit0 => true

theorem merge_of_not_merges {w : RegWrite} (h : w.merges = false) (old old' : Word) :
    w.merge old = w.merge old' := by
  cases hm : w.mode with
  | raw => simp [merge, hm]
  | gpr width | part width =>
    have hc : (w.dst.isX86 && width.isSub) = false := by simpa [merges, hm] using h
    simp [merge, hm, hc]
  | highByte | setBit0 => simp [merges, hm] at h

/-- Apply one write to a register file. -/
def apply (arch : Arch) (w : RegWrite) (s : RegFile) : RegFile :=
  s.write arch w.dst (w.merge (s.read arch w.dst))

variable {arch : Arch} {w : RegWrite} {s t : RegFile} {r : VReg}

theorem read_apply_of_not_shares (h : ¬ Shares arch r w.dst) :
    (w.apply arch s).read arch r = s.read arch r :=
  RegFile.read_write_of_not_shares h _

end RegWrite

/-- Apply the writes of an operation in order. -/
def applyWrites (arch : Arch) (ws : List RegWrite) (s : RegFile) : RegFile :=
  ws.foldl (fun s w => w.apply arch s) s

namespace RegFile

variable {arch : Arch} {s t : RegFile} {r : VReg} {ws : List RegWrite}

@[simp] theorem applyWrites_cons {w : RegWrite} :
    applyWrites arch (w :: ws) s = applyWrites arch ws (w.apply arch s) := rfl

/-- One list of writes keeps two register files in agreement on a set of names, and makes
them agree on what it overwrites, as long as no merging write brings in a difference. -/
theorem applyWrites_agree {A : VReg → Prop} (h : ∀ r, A r → s.read arch r = t.read arch r)
    (hmerge : ∀ w ∈ ws, w.merges = true →
      A w.dst ∨ ∀ r, (A r ∨ ∃ w' ∈ ws, w'.dst = r ∧ w'.merges = false) →
        ¬ Shares arch r w.dst) :
    (∀ r, A r → (applyWrites arch ws s).read arch r = (applyWrites arch ws t).read arch r) ∧
      ∀ w ∈ ws, w.merges = false → takesWrite arch w.dst = true →
        (applyWrites arch ws s).read arch w.dst = (applyWrites arch ws t).read arch w.dst := by
  induction ws generalizing A s t with
  | nil => exact ⟨h, fun w hw => absurd hw List.not_mem_nil⟩
  | cons w ws ih =>
    have hval : w.merges = false ∨ A w.dst →
        w.merge (s.read arch w.dst) = w.merge (t.read arch w.dst) := by
      rintro (hm | hA)
      · exact RegWrite.merge_of_not_merges hm _ _
      · rw [h w.dst hA]
    have hkeep (r : VReg) (hr : A r) :
        (w.apply arch s).read arch r = (w.apply arch t).read arch r := by
      by_cases hsame : w.merges = false ∨ A w.dst
      · rw [RegWrite.apply, RegWrite.apply, hval hsame]
        exact read_write_congr _ (h r hr)
      · rw [not_or, Bool.not_eq_false] at hsame
        have hns := ((hmerge w List.mem_cons_self hsame.1).resolve_left hsame.2) r (Or.inl hr)
        rw [RegWrite.read_apply_of_not_shares hns, RegWrite.read_apply_of_not_shares hns]
        exact h r hr
    -- After the first write its destination agrees as well, if it was overwritten.
    let A' (r : VReg) : Prop :=
      A r ∨ r = w.dst ∧ w.merges = false ∧ takesWrite arch w.dst = true
    have hA' (r : VReg) (hr : A' r) :
        (w.apply arch s).read arch r = (w.apply arch t).read arch r := by
      rcases hr with hr | ⟨rfl, hm, htake⟩
      · exact hkeep r hr
      · rw [RegWrite.apply, RegWrite.apply, hval (Or.inl hm)]
        exact read_write_self s t _ htake
    obtain ⟨hih, hih'⟩ := ih (A := A') hA' fun w' hw' hm => by
      refine (hmerge w' (List.mem_cons_of_mem _ hw') hm).imp Or.inl fun hns r hr => hns r ?_
      rcases hr with (hr | ⟨rfl, hm, -⟩) | ⟨w'', hw'', hd⟩
      · exact Or.inl hr
      · exact Or.inr ⟨w, List.mem_cons_self, rfl, hm⟩
      · exact Or.inr ⟨w'', List.mem_cons_of_mem _ hw'', hd⟩
    refine ⟨fun r hr => hih r (Or.inl hr), fun w' hw' hm htake => ?_⟩
    rcases List.mem_cons.mp hw' with rfl | hw'
    · exact hih w'.dst (Or.inr ⟨rfl, hm, htake⟩)
    · exact hih' w' hw' hm htake

theorem read_applyWrites_of_not_shares (h : ∀ w ∈ ws, ¬ Shares arch r w.dst) :
    (applyWrites arch ws s).read arch r = s.read arch r := by
  induction ws generalizing s with
  | nil => rfl
  | cons w ws ih =>
    rw [applyWrites_cons, ih fun w' hw' => h w' (List.mem_cons_of_mem _ hw')]
    exact RegWrite.read_apply_of_not_shares (h w List.mem_cons_self)

end RegFile

end Rax.Smir

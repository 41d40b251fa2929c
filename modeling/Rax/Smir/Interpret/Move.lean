import Rax.Smir.Interpret.Exec
import Rax.Smir.Interpret.Width

/-!
# Operations that act as register moves

Integer operations that leave the flags alone do nothing but store one value, cut to the
operand width. `Machine.moveTo` is that effect; two of them are equal as soon as the values
agree at the width.
-/

namespace Rax.Smir

variable {μ : Type}

/-- Store a value in a register at a width, as `Mov` does. -/
def Machine.moveTo (env : Env) (m : Machine μ) (dst : VReg) (width : OpWidth) (v : Word) :
    Machine μ :=
  { m with regs := (RegWrite.mk dst (.part width) v).apply env.arch m.regs }

/-- The bits of a value that a name stores. -/
def storeMask (arch : Arch) (r : VReg) : Word :=
  match slot arch r with
  | .cell _ (.full mask) | .cell _ (.field _ mask) => mask
  | .cell _ (.readOnly _ _) | .const _ => 0

theorem view_x86 {r : VReg} {c : Cell} {view : View} (h : slot .x86 r = .cell c view) :
    ∃ mask, view = .full mask := by
  cases r with
  | virt id => cases h; exact ⟨_, rfl⟩
  | imm val => cases h
  | arch a =>
    cases a with
    | x86 r => cases r <;> cases h <;> exact ⟨_, rfl⟩
    | _ => cases h

/-- Fields lie within their cells. -/
theorem slot_field {arch : Arch} {r : VReg} {c : Cell} {shift : Nat} {mask : Word}
    (h : slot arch r = .cell c (.field shift mask)) : (mask <<< shift) >>> shift = mask := by
  cases r with
  | virt id => cases h
  | imm val => cases h
  | arch a =>
    cases arch with
    | x86 =>
      cases a with
      | x86 r => cases r <;> cases h
      | _ => cases h
    | aarch64 =>
      cases a with
      | arm r =>
        cases r with
        | x n => by_cases hn : 31 ≤ n <;> simp [slot, armSlot, Slot.whole, hn] at h
        | _ => cases h
      | _ => cases h
    | hexagon =>
      cases a with
      | hexagon r => cases r <;> cases h
      | _ => cases h
    | riscV =>
      cases a with
      | riscV r =>
        cases r with
        | x n => by_cases hn : n = 0 <;> simp [slot, riscVSlot, Slot.whole, hn] at h
        | csr n =>
          simp only [slot, riscVSlot, csrSlot] at h
          split at h <;> cases h <;> rfl
        | _ => cases h
      | _ => cases h

theorem View.get_put_field {shift : Nat} {mask : Word} (h : (mask <<< shift) >>> shift = mask)
    (old v : Word) : (field shift mask).get ((field shift mask).put old v) = v &&& mask := by
  refine BitVec.eq_of_getLsbD_eq fun i hi => ?_
  have hbit := congrArg (·.getLsbD i) h
  simp [get, put] at hbit ⊢
  grind

namespace RegFile

variable {arch : Arch} {s : RegFile} {r d : VReg} {v u : Word}

theorem read_write_of_storeMask_ne (h : storeMask arch r ≠ 0) :
    (s.write arch r v).read arch r = v &&& storeMask arch r := by
  cases hr : slot arch r with
  | const value => simp [storeMask, hr] at h
  | cell c view =>
    cases view with
    | full mask => simp [read, write, storeMask, hr, View.get, View.put]
    | readOnly shift mask => simp [storeMask, hr] at h
    | field shift mask =>
      simp only [read, write, storeMask, hr, Function.update_self]
      exact View.get_put_field (slot_field hr) (s c) v

end RegFile

namespace RegWrite

theorem merge_toGpr_and_mask (dst : VReg) (width : OpWidth) (v old : Word) :
    (toGpr dst width (v &&& width.mask)).merge old = (mk dst (.part width) v).merge old := by
  simp only [toGpr, merge, OpWidth.and_mask_and_mask]

theorem merge_part_and_mask (dst : VReg) (width : OpWidth) (v old : Word) :
    (mk dst (.part width) v).merge old &&& width.mask = v &&& width.mask := by
  simp only [merge]
  split
  · exact Word.replace_and width.mask old v
  · exact OpWidth.and_mask_and_mask v width

end RegWrite

namespace Machine

variable {env : Env} {m : Machine μ} {dst : VReg} {width : OpWidth} {v v' : Word}

theorem moveTo_congr (h : v &&& width.mask = v' &&& width.mask) :
    m.moveTo env dst width v = m.moveTo env dst width v' := by
  simp only [moveTo, RegWrite.apply, RegWrite.merge, h]

theorem toGpr_eq_moveTo (env : Env) (m : Machine μ) (dst : VReg) (width : OpWidth) (v : Word) :
    { m with regs := (RegWrite.toGpr dst width (v &&& width.mask)).apply env.arch m.regs } =
      m.moveTo env dst width v := by
  simp only [moveTo, RegWrite.apply, RegWrite.merge_toGpr_and_mask]
  rfl

end Machine

section Exec

variable [SmirMemory μ] {env : Env} {m : Machine μ} (pc : Word) (hint : Bool)

theorem exec_of_writes_one {op : SmirOp μ} {eff : Effect} {w : RegWrite}
    (h : eval env op (m.inputs env) = (m.inputs env).done eff) (hexit : eff.exit = none)
    (hflags : eff.flags.apply m.flags = m.flags) (hwrites : eff.writes = [w]) :
    exec env op m = .next { m with regs := w.apply env.arch m.regs } := by
  simp only [exec, h, Inputs.done, Evaluated.finish, hexit, Machine.commit, hflags, hwrites]
  rfl

theorem exec_mov (dst : VReg) (src : SrcOperand) (width : OpWidth) :
    exec env ⟨pc, .mov dst src width, hint⟩ m =
      .next (m.moveTo env dst width (readSrcOperand (m.read env) src)) :=
  exec_of_writes_one rfl rfl rfl rfl

end Exec

end Rax.Smir

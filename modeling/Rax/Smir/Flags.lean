import Mathlib.Data.Finset.Basic
import Rax.Smir.Types

/-!
# Lazy status flags

The flag state of an SMIR context (`smir/ir/flags.rs`): a settled copy of the six status
flags and, in front of it, at most one pending record from which flags are computed when
they are read. A record need not produce every flag. A flag that it leaves out is read from
the settled copy, whatever record was pending before.
-/

namespace Rax.Smir

inductive Flag where
  | cf | zf | sf | of | pf | af
  deriving DecidableEq, Repr

abbrev FlagSet := Finset Flag

namespace FlagSet

def nzcv : FlagSet := {.cf, .zf, .sf, .of}

def allX86 : FlagSet := {.cf, .zf, .sf, .of, .pf, .af}

@[simp] theorem mem_allX86 (f : Flag) : f ∈ allX86 := by
  cases f <;> decide

end FlagSet

/-- Which flags an operation is asked to update. -/
inductive FlagUpdate where
  | none
  | all
  | specific (set : FlagSet)
  deriving DecidableEq

namespace FlagUpdate

def asSet : FlagUpdate → FlagSet
  | none => ∅
  | all => FlagSet.allX86
  | specific set => set

def updatesAny : FlagUpdate → Bool
  | none => false
  | _ => true

end FlagUpdate

inductive LazyFlagOp where
  | none | add | sub | adc | sbb | logic | andn | inc | dec | neg | shl | shr | sar
  | rotate | ror | rcl | rcr | shld | shrd | mul | imul | bt | bextr | bzhi
  | blsr | blsmsk | blsi
  deriving DecidableEq, Repr

/-- A pending flag computation. -/
structure LazyFlags where
  op : LazyFlagOp
  result : Word
  left : Word := 0
  right : Word := 0
  width : OpWidth
  high : Word := 0
  deriving DecidableEq, Repr

namespace LazyFlags

def add (left right result : Word) (width : OpWidth) : LazyFlags :=
  { op := .add, result, left, right, width }

def sub (left right result : Word) (width : OpWidth) : LazyFlags :=
  { op := .sub, result, left, right, width }

def adc (left right carryIn result : Word) (width : OpWidth) : LazyFlags :=
  { op := .adc, result, left, right, width, high := carryIn &&& 1 }

def sbb (left right carryIn result : Word) (width : OpWidth) : LazyFlags :=
  { op := .sbb, result, left, right, width, high := carryIn &&& 1 }

def logic (result : Word) (width : OpWidth) : LazyFlags := { op := .logic, result, width }

def andn (result : Word) (width : OpWidth) : LazyFlags := { op := .andn, result, width }

def inc (left result : Word) (width : OpWidth) : LazyFlags :=
  { op := .inc, result, left, right := 1, width }

def dec (left result : Word) (width : OpWidth) : LazyFlags :=
  { op := .dec, result, left, right := 1, width }

def bextr (result : Word) (width : OpWidth) : LazyFlags := { op := .bextr, result, width }

def bzhi (index result : Word) (width : OpWidth) : LazyFlags :=
  { op := .bzhi, result, right := index, width }

def bls (op : LazyFlagOp) (src result : Word) (width : OpWidth) : LazyFlags :=
  { op, result, left := src, width }

/-- Whether the sign bit of a value is set at the record's width. -/
def signOf (lazy : LazyFlags) (v : Word) : Bool := v &&& lazy.width.signBit != 0

/-- Whether the high half of a signed product is not the sign extension of the low half. -/
def imulOverflows (lazy : LazyFlags) : Bool :=
  lazy.high != if lazy.signOf lazy.result then lazy.width.mask else 0

/-- Carry flag of a record; `none` where the source reads the settled copy instead. -/
def materializeCf (lazy : LazyFlags) : Option Bool :=
  let mask := lazy.width.mask
  let bits := lazy.width.bits
  match lazy.op with
  | .add => some (BitVec.ult (lazy.result &&& mask) (lazy.left &&& mask))
  | .sub => some (BitVec.ult (lazy.left &&& mask) (lazy.right &&& mask))
  | .adc => some (decide (mask.toNat <
      (lazy.left &&& mask).toNat + (lazy.right &&& mask).toNat + lazy.high.toNat))
  | .sbb => some (decide ((lazy.left &&& mask).toNat <
      (lazy.right &&& mask).toNat + lazy.high.toNat))
  | .logic | .andn => some false
  | .inc | .dec => none
  | .neg => some (lazy.left &&& mask != 0)
  | .shl =>
    if lazy.right = 0 then none
    else
      let shift := lazy.right.toNat % 2 ^ 32
      some (decide (shift ≤ bits) && (Word.shr lazy.left (bits - shift)).bit 0)
  | .shr | .sar =>
    if lazy.right = 0 then none
    else some ((Word.shr lazy.left (lazy.right - 1).toNat).bit 0)
  | .rotate => some (lazy.result.bit 0)
  | .ror => some (lazy.signOf lazy.result)
  | .rcl | .rcr => some (lazy.high.bit 0)
  | .shld => some ((Word.shr lazy.left (BitVec.ofNat 64 bits - lazy.right).toNat).bit 0)
  | .shrd => some ((Word.shr lazy.left (lazy.right - 1).toNat).bit 0)
  | .mul => some (lazy.high != 0)
  | .imul => some lazy.imulOverflows
  | .bt => some ((Word.shr lazy.left (lazy.right &&& BitVec.ofNat 64 (bits - 1)).toNat).bit 0)
  | .bextr => some false
  | .bzhi => some (decide (bits ≤ lazy.right.toNat))
  | .blsr | .blsmsk => some (lazy.left &&& mask == 0)
  | .blsi => some (lazy.left &&& mask != 0)
  | .none => none

def materializeZf (lazy : LazyFlags) : Option Bool :=
  match lazy.op with
  | .rotate | .ror | .rcl | .rcr | .bt => none
  | .blsmsk => some false
  | _ => some (lazy.result &&& lazy.width.mask == 0)

def materializeSf (lazy : LazyFlags) : Option Bool :=
  match lazy.op with
  | .rotate | .ror | .rcl | .rcr | .bt | .bextr => none
  | _ => some (lazy.signOf lazy.result)

/-- Whether the two most significant bits of the result differ (rotates right by one). -/
def topBitsDiffer (lazy : LazyFlags) : Bool :=
  lazy.signOf lazy.result != (lazy.result &&& (lazy.width.signBit >>> 1) != 0)

def materializeOf (lazy : LazyFlags) : Option Bool :=
  let left := lazy.signOf lazy.left
  let right := lazy.signOf lazy.right
  let result := lazy.signOf lazy.result
  let mask := lazy.width.mask
  let sign := lazy.width.signBit
  match lazy.op with
  | .add | .adc => some (left == right && result != left)
  | .sub | .sbb => some (left != right && result != left)
  | .logic | .andn => some false
  | .inc => some (lazy.result &&& mask == sign)
  | .dec => some (lazy.result &&& mask == sign - 1)
  | .neg => some (lazy.left &&& mask == sign)
  | .shl => some (lazy.right == 1 && lazy.materializeCf.getD false != result)
  | .shr => some (lazy.right == 1 && left)
  | .sar => some false
  | .rotate | .rcl =>
    if lazy.right = 1 then some (lazy.materializeCf.getD false != result) else none
  | .ror | .rcr => if lazy.right = 1 then some lazy.topBitsDiffer else none
  | .shld | .shrd => some (lazy.right == 1 && lazy.signOf (lazy.result ^^^ lazy.left))
  | .mul => some (lazy.high != 0)
  | .imul => some lazy.imulOverflows
  | .bt => none
  | .bextr | .bzhi | .blsr | .blsmsk | .blsi => some false
  | .none => none

/-- Even parity of the low byte of a value. -/
def evenParity (v : Word) : Bool := (List.range 8).countP v.bit % 2 == 0

def materializePf (lazy : LazyFlags) : Option Bool :=
  match lazy.op with
  | .rotate | .ror | .rcl | .rcr | .bt | .andn | .bextr | .bzhi | .blsr | .blsmsk
  | .blsi => none
  | _ => some (evenParity lazy.result)

def materializeAf (lazy : LazyFlags) : Option Bool :=
  match lazy.op with
  | .add | .sub => some ((lazy.left ^^^ lazy.right ^^^ lazy.result) &&& 0x10 != 0)
  | .adc => some (decide (0xF <
      (lazy.left &&& 0xF).toNat + (lazy.right &&& 0xF).toNat + lazy.high.toNat))
  | .sbb => some (decide ((lazy.left &&& 0xF).toNat <
      (lazy.right &&& 0xF).toNat + lazy.high.toNat))
  | .inc => some (lazy.result &&& 0xF == 0)
  | .dec => some (lazy.result &&& 0xF == 0xF)
  | .neg => some (lazy.left &&& 0xF != 0)
  | .logic => some false
  | _ => none

/-- The value a record gives a flag, if it produces that flag at all. -/
def produces (lazy : LazyFlags) : Flag → Option Bool
  | .cf => lazy.materializeCf
  | .zf => lazy.materializeZf
  | .sf => lazy.materializeSf
  | .of => lazy.materializeOf
  | .pf => lazy.materializePf
  | .af => lazy.materializeAf

end LazyFlags

/-- The values of the status flags together with the two control flags. -/
structure FlagImage where
  bit : Flag → Bool
  df : Bool
  ac : Bool

namespace FlagImage

/-- The x86 RFLAGS bit position of a status flag. -/
def position : Flag → Nat
  | .cf => 0
  | .pf => 2
  | .af => 4
  | .zf => 6
  | .sf => 7
  | .of => 11

/-- `MaterializedFlags::to_rflags`; bit 1 is always set. -/
def toRflags (image : FlagImage) : Word :=
  let put (on : Bool) (n : Nat) : Word := if on then 1 <<< n else 0
  let status (f : Flag) : Word := put (image.bit f) (position f)
  0x02 ||| status .cf ||| status .pf ||| status .af ||| status .zf ||| status .sf |||
    put image.df 10 ||| status .of ||| put image.ac 18

/-- `MaterializedFlags::from_rflags`. -/
def ofRflags (rflags : Word) : FlagImage :=
  ⟨fun f => rflags.bit (position f), rflags.bit 10, rflags.bit 18⟩

/-- `FlagState::eval_condition`, over the values it reads. -/
def evalCondition (bit : Flag → Bool) : Condition → Bool
  | .eq => bit .zf
  | .ne => !bit .zf
  | .ult => bit .cf
  | .uge => !bit .cf
  | .ule => bit .cf || bit .zf
  | .ugt => !bit .cf && !bit .zf
  | .slt => bit .sf != bit .of
  | .sge => bit .sf == bit .of
  | .sle => bit .zf || bit .sf != bit .of
  | .sgt => !bit .zf && bit .sf == bit .of
  | .negative => bit .sf
  | .positive => !bit .sf
  | .overflow => bit .of
  | .noOverflow => !bit .of
  | .parity => bit .pf
  | .noParity => !bit .pf
  | .always => true

def requiredFlags : Condition → FlagSet
  | .eq | .ne => {.zf}
  | .ult | .uge => {.cf}
  | .ule | .ugt => {.cf, .zf}
  | .slt | .sge => {.sf, .of}
  | .sle | .sgt => {.zf, .sf, .of}
  | .negative | .positive => {.sf}
  | .overflow | .noOverflow => {.of}
  | .parity | .noParity => {.pf}
  | .always => ∅

/-- A condition is decided by the flags listed as required for it. -/
theorem evalCondition_congr {a b : Flag → Bool} {cond : Condition}
    (h : ∀ f ∈ requiredFlags cond, a f = b f) : evalCondition a cond = evalCondition b cond := by
  cases cond <;> simp [requiredFlags] at h <;> simp [evalCondition, h]

end FlagImage

/-- Flag state: a settled copy and at most one pending record. -/
structure FlagState where
  lazy : Option LazyFlags := none
  materialized : Flag → Bool
  df : Bool := false
  ac : Bool := false

namespace FlagState

/-- The value a read of the flag returns (`get_cf` to `get_af`). -/
def get (s : FlagState) (f : Flag) : Bool :=
  match s.lazy with
  | some lazy => (lazy.produces f).getD (s.materialized f)
  | none => s.materialized f

def image (s : FlagState) : FlagImage := ⟨s.get, s.df, s.ac⟩

/-- Commit the pending record to the settled copy. -/
def materializeAll (s : FlagState) : FlagState :=
  { s with lazy := none, materialized := s.get }

/-- Install a record under a flag-update request. -/
def setLazyWithUpdate (s : FlagState) (lazy : LazyFlags) : FlagUpdate → FlagState
  | .none => s
  | .all => { s with lazy := some lazy }
  | .specific set =>
    let prior := s.materializeAll
    let produced := { prior with lazy := some lazy }.materializeAll
    { prior with
      materialized := fun f =>
        if f ∈ set then produced.materialized f else prior.materialized f }

/-- Whether the pending record produces the flag. -/
def pending (s : FlagState) (f : Flag) : Bool :=
  match s.lazy with
  | some lazy => (lazy.produces f).isSome
  | none => false

end FlagState

/-- What an operation does to the flag state. The interpreter uses these five patterns:
leave it alone, replace the pending record, install a record under a request, settle and
then install a record, settle and then store values. -/
inductive FlagAct where
  | keep
  | setLazy (lazy : LazyFlags)
  | withUpdate (lazy : LazyFlags) (update : FlagUpdate)
  | settleLazy (lazy : LazyFlags)
  | assign (value : Flag → Option Bool) (df ac : Option Bool)

namespace FlagAct

/-- Settle the pending record and change nothing else. -/
def settle : FlagAct := assign (fun _ => none) none none

/-- `setLazy` for an operation that looks only at whether any update is requested. -/
def onUpdate (update : FlagUpdate) (act : FlagAct) : FlagAct :=
  if update.updatesAny then act else keep

def apply : FlagAct → FlagState → FlagState
  | keep, s => s
  | setLazy lazy, s => { s with lazy := some lazy }
  | withUpdate lazy update, s => s.setLazyWithUpdate lazy update
  | settleLazy lazy, s => { s.materializeAll with lazy := some lazy }
  | assign value df ac, s =>
    { lazy := none
      materialized := fun f => (value f).getD (s.get f)
      df := df.getD s.df
      ac := ac.getD s.ac }

/-- The value the act gives a flag, if it gives one. -/
def written : FlagAct → Flag → Option Bool
  | keep, _ => none
  | setLazy lazy, f | settleLazy lazy, f => lazy.produces f
  | withUpdate lazy update, f => if f ∈ update.asSet then lazy.produces f else none
  | assign value _ _, f => value f

/-- Whether the act drops the pending record without settling it and gives the flag no value
of its own, so that the flag falls back to the settled copy. -/
def forgets : FlagAct → Flag → Bool
  | setLazy lazy, f | withUpdate lazy .all, f => (lazy.produces f).isNone
  | _, _ => false

/-- What a flag reads as after an act: the value written, the settled copy where the act
forgets the pending record, and otherwise the value read before. -/
theorem get_apply (act : FlagAct) (s : FlagState) (f : Flag) :
    (act.apply s).get f =
      (act.written f).getD (if act.forgets f then s.materialized f else s.get f) := by
  cases act with
  | keep => simp [apply, written, forgets]
  | setLazy lazy => cases h : lazy.produces f <;> simp [apply, written, forgets, FlagState.get, h]
  | settleLazy lazy =>
    cases h : lazy.produces f <;>
      simp [apply, written, forgets, FlagState.get, FlagState.materializeAll, h]
  | assign value df ac => simp [apply, written, forgets, FlagState.get]
  | withUpdate lazy update =>
    cases update with
    | none => simp [apply, written, forgets, FlagState.setLazyWithUpdate, FlagUpdate.asSet]
    | all =>
      cases h : lazy.produces f <;>
        simp [apply, written, forgets, FlagState.setLazyWithUpdate, FlagState.get,
          FlagUpdate.asSet, h]
    | specific set =>
      by_cases hf : f ∈ set <;>
        simp [apply, written, forgets, FlagState.setLazyWithUpdate, FlagState.get,
          FlagState.materializeAll, FlagUpdate.asSet, hf]

end FlagAct

/-- Flag states with the same settled copy in which every flag reads the same. Their pending
records may still differ in bits of the operands that no flag depends on. -/
structure FlagState.Same (s t : FlagState) : Prop where
  image : s.image = t.image
  settled : s.materialized = t.materialized

theorem FlagState.Same.refl (s : FlagState) : s.Same s := ⟨rfl, rfl⟩

namespace FlagAct

/-- What the settled copy of a flag becomes, given the copy and the value read before. -/
def settles : FlagAct → (copy value : Flag → Bool) → Flag → Bool
  | keep, copy, _ | setLazy _, copy, _ | withUpdate _ .none, copy, _
  | withUpdate _ .all, copy, _ => copy
  | settleLazy _, _, value => value
  | withUpdate lazy (.specific set), _, value => fun f =>
    if f ∈ set then (lazy.produces f).getD (value f) else value f
  | assign assigned _ _, _, value => fun f => (assigned f).getD (value f)

theorem materialized_apply (act : FlagAct) (s : FlagState) :
    (act.apply s).materialized = act.settles s.materialized s.get := by
  cases act with
  | withUpdate lazy update => cases update <;> rfl
  | _ => rfl

theorem df_apply (act : FlagAct) (s : FlagState) :
    (act.apply s).df = match act with
      | assign _ df _ => df.getD s.df
      | _ => s.df := by
  cases act with
  | withUpdate lazy update => cases update <;> rfl
  | _ => rfl

theorem ac_apply (act : FlagAct) (s : FlagState) :
    (act.apply s).ac = match act with
      | assign _ _ ac => ac.getD s.ac
      | _ => s.ac := by
  cases act with
  | withUpdate lazy update => cases update <;> rfl
  | _ => rfl

theorem apply_same (act : FlagAct) {s t : FlagState} (h : s.Same t) :
    (act.apply s).Same (act.apply t) := by
  obtain ⟨himage, hsettled⟩ := h
  have hget : s.get = t.get := congrArg FlagImage.bit himage
  have hdf : s.df = t.df := congrArg FlagImage.df himage
  have hac : s.ac = t.ac := congrArg FlagImage.ac himage
  have hbit : (act.apply s).get = (act.apply t).get := by
    funext f
    rw [get_apply, get_apply, hget, hsettled]
  constructor
  · simp only [FlagState.image, hbit, df_apply, ac_apply, hdf, hac]
  · rw [materialized_apply, materialized_apply, hget, hsettled]

theorem setLazy_same {lazy lazy' : LazyFlags} (hrec : lazy.produces = lazy'.produces)
    {s t : FlagState} (h : s.Same t) :
    ((setLazy lazy).apply s).Same ((setLazy lazy').apply t) := by
  obtain ⟨himage, hsettled⟩ := h
  have hdf : s.df = t.df := congrArg FlagImage.df himage
  have hac : s.ac = t.ac := congrArg FlagImage.ac himage
  have hbit : ((setLazy lazy).apply s).get = ((setLazy lazy').apply t).get := by
    funext f
    cases h : lazy'.produces f <;> simp [get_apply, written, forgets, hrec, h, hsettled]
  constructor
  · simp only [FlagState.image, hbit, df_apply, ac_apply, hdf, hac]
  · exact hsettled

end FlagAct

end Rax.Smir

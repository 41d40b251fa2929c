import Rax.Aarch64.Mmu

/-!
# Hierarchical table attributes

The walk splits into the descent, which finds the table descriptors on the path and the leaf, and
the check on the leaf with the attributes accumulated on the way. Apart from APTable[0], which
the source combines with AP[1] so that it adds unprivileged access, the attributes of table
descriptors only take permissions away: a set bit never turns a fault into a translation, unless
the page becomes executable under WXN because it is no longer writable.
-/

namespace Rax.Aarch64

open MmuConfig

variable {c : MmuConfig} {memory : Word → Option Word} {va : Word} {access : Access}
  {g : TranslationGranule}

/-! ## The path of a walk -/

/-- What the walk meets: the table descriptors on the path, the leaf and its level. -/
structure WalkPath where
  tables : List PageTableEntry
  leaf : PageTableEntry
  level : Nat

/-- The descent of the walk without the checks on the leaf. -/
def descend (memory : Word → Option Word) (va : Word) (g : TranslationGranule) :
    Nat → Word → Except TranslationFault WalkPath
  | 0, tableAddr => do
    let e ← fetch memory va g 3 tableAddr
    return ⟨[], e, 3⟩
  | n + 1, tableAddr => do
    let e ← fetch memory va g (3 - (n + 1)) tableAddr
    if e.isTable then do
      let path ← descend memory va g n (e.outputAddress g (3 - (n + 1)))
      return { path with tables := e :: path.tables }
    else return ⟨[], e, 3 - (n + 1)⟩

/-- The walk is the descent followed by the check with the accumulated attributes. -/
theorem walkLoop_eq (n : Nat) (tableAddr : Word) (fromTable : TableAttributes) :
    c.walkLoop memory va access g n tableAddr fromTable =
      descend memory va g n tableAddr >>= fun path =>
        c.finish va access g path.leaf path.level
          (path.tables.foldl TableAttributes.accumulate fromTable) := by
  induction n generalizing tableAddr fromTable with
  | zero =>
    rw [walkLoop, descend]
    cases fetch memory va g 3 tableAddr with
    | error f => rfl
    | ok e => rfl
  | succ n ih =>
    rw [walkLoop, descend]
    cases fetch memory va g (3 - (n + 1)) tableAddr with
    | error f => rfl
    | ok e =>
      simp only [Except.bind, bind]
      by_cases htable : e.isTable = true
      · rw [if_pos htable, if_pos htable, ih]
        cases descend memory va g n (e.outputAddress g (3 - (n + 1))) with
        | error f => rfl
        | ok path => rfl
      · rw [if_neg htable, if_neg htable]
        rfl

/-! ## Accumulated attributes -/

theorem foldl_accumulate_ap (tables : List PageTableEntry) (t : TableAttributes) (i : Nat) :
    (tables.foldl TableAttributes.accumulate t).ap.getLsbD i =
      (t.ap.getLsbD i || tables.any fun e => e.apTable.getLsbD i) := by
  induction tables generalizing t with
  | nil => simp
  | cons e tables ih =>
    rw [List.foldl_cons, ih, List.any_cons, ← Bool.or_assoc]
    simp only [TableAttributes.accumulate, BitVec.getLsbD_or]

theorem foldl_accumulate_uxn (tables : List PageTableEntry) (t : TableAttributes) :
    (tables.foldl TableAttributes.accumulate t).uxn =
      (t.uxn || tables.any PageTableEntry.uxnTable) := by
  induction tables generalizing t with
  | nil => simp
  | cons e tables ih =>
    rw [List.foldl_cons, ih, List.any_cons, ← Bool.or_assoc]
    rfl

/-! ## The permission check -/

theorem readOk_el0 (ap : BitVec 2) : readOk false ap = ap.getLsbD 0 := by
  revert ap
  decide

theorem writeOk_el0 (ap : BitVec 2) : writeOk false ap = (ap.getLsbD 0 && !ap.getLsbD 1) := by
  revert ap
  decide

theorem writeOk_privileged (ap : BitVec 2) : writeOk true ap = !ap.getLsbD 1 := by
  revert ap
  decide

/-- Execution is forbidden by the leaf or the tables above it. -/
def executeNever (e : PageTableEntry) (privileged : Bool) (t : TableAttributes) : Bool :=
  if privileged then e.pxn || t.pxn else e.uxn || t.uxn

theorem checkPermissions_ok_iff {e : PageTableEntry} {t : TableAttributes} {level : Nat} :
    c.checkPermissions e access t level va = .ok () ↔
      (access.isWrite = true → writeOk access.privileged (e.ap ||| t.ap) = true) ∧
      (access.isWrite = false → access.isExecute = false →
        readOk access.privileged (e.ap ||| t.ap) = true) ∧
      (access.isExecute = true → executeNever e access.privileged t = false ∧
        (c.wxn = true → writeOk access.privileged (e.ap ||| t.ap) = false)) := by
  unfold checkPermissions executeNever
  dsimp only
  cases hw : access.isWrite <;> cases hx : access.isExecute <;>
    cases writeOk access.privileged (e.ap ||| t.ap) <;>
    cases readOk access.privileged (e.ap ||| t.ap) <;>
    cases (if access.privileged = true then e.pxn || t.pxn else e.uxn || t.uxn) <;>
    cases c.wxn <;> simp

theorem finish_ok_iff {e : PageTableEntry} {t : TableAttributes} {level : Nat} :
    (∃ d, c.finish va access g e level t = .ok d) ↔
      e.accessFlag = true ∧ c.checkPermissions e access t level va = .ok () := by
  unfold finish
  cases e.accessFlag with
  | false => simp
  | true =>
    cases c.checkPermissions e access t level va with
    | error f => simp [bind, Except.bind]
    | ok u => simp [bind, Except.bind, pure, Except.pure]

/-- The walk of an address in an enabled unit. -/
def Mmu.path (mmu : Mmu) (va : Word) (memory : Word → Option Word) :
    Except TranslationFault WalkPath := do
  let (ttbr, tsz, g) ← mmu.config.selectTtbr va
  descend memory va g (levelsBelow g tsz) (ttbr &&& 0x0000FFFFFFFFF000)

/-- The attributes of all table descriptors of a path. -/
def WalkPath.fromTable (p : WalkPath) : TableAttributes :=
  p.tables.foldl TableAttributes.accumulate {}

/-- An enabled unit translates exactly if the path leads to a leaf with its access flag set that
passes the check. -/
theorem translate_ok_iff {mmu : Mmu} (he : mmu.config.enabled = true) :
    (∃ d, mmu.translate va memory access = .ok d) ↔
      ∃ p, mmu.path va memory = .ok p ∧ p.leaf.accessFlag = true ∧
        mmu.config.checkPermissions p.leaf access p.fromTable p.level va = .ok () := by
  unfold Mmu.translate Mmu.path
  simp only [he, Bool.not_true, Bool.false_eq_true, if_false]
  cases mmu.config.selectTtbr va with
  | error f => simp [bind, Except.bind]
  | ok x =>
    obtain ⟨ttbr, tsz, g⟩ := x
    simp only [bind, Except.bind, walkLoop_eq]
    cases descend memory va g (levelsBelow g tsz) (ttbr &&& 0x0000FFFFFFFFF000) with
    | error f => simp
    | ok p =>
      simp only [Except.ok.injEq, exists_eq_left']
      exact finish_ok_iff

/-! ## Setting attribute bits -/

/-- NSTable, APTable[1], UXNTable and PXNTable in a descriptor. -/
def restrictBits : Word := 0xD800000000000000

/-- Memory in which further bits are set. -/
def setBits (bits : Word → Word) (memory : Word → Option Word) : Word → Option Word :=
  fun a => (memory a).map fun v => v ||| bits a

/-- A descriptor with further restricting bits. -/
def Raised (e e' : PageTableEntry) : Prop :=
  ∃ x : Word, x &&& ~~~restrictBits = 0 ∧ e'.value = e.value ||| x

variable {e e' : PageTableEntry}

theorem Raised.getLsbD_of_set (h : Raised e e') {i : Nat} (hi : e.value.getLsbD i = true) :
    e'.value.getLsbD i = true := by
  obtain ⟨x, -, hx⟩ := h
  rw [hx, BitVec.getLsbD_or, hi, Bool.true_or]

theorem Raised.getLsbD_eq (h : Raised e e') {i : Nat} (hi : restrictBits.getLsbD i = false)
    (hlt : i < 64) :
    e'.value.getLsbD i = e.value.getLsbD i := by
  obtain ⟨x, hzero, hx⟩ := h
  have hbit : (x &&& ~~~restrictBits).getLsbD i = false := by
    rw [hzero]
    exact BitVec.getLsbD_zero
  rw [BitVec.getLsbD_and, BitVec.getLsbD_not, hi] at hbit
  have hxi : x.getLsbD i = false := by simpa [hlt] using hbit
  rw [hx, BitVec.getLsbD_or, hxi, Bool.or_false]

/-- What is read of a descriptor below the restricting bits is the same. -/
theorem Raised.and_eq (h : Raised e e') {w : Word} (hw : w &&& restrictBits = 0) :
    e'.value &&& w = e.value &&& w := by
  refine BitVec.eq_of_getLsbD_eq fun i hi => ?_
  rw [BitVec.getLsbD_and, BitVec.getLsbD_and]
  by_cases hr : restrictBits.getLsbD i = true
  · have hbit : (w &&& restrictBits).getLsbD i = false := by
      rw [hw]
      exact BitVec.getLsbD_zero
    rw [BitVec.getLsbD_and, hr, Bool.and_true] at hbit
    rw [hbit, Bool.and_false, Bool.and_false]
  · rw [h.getLsbD_eq (Bool.eq_false_iff.mpr hr) hi]

theorem Raised.isValid (h : Raised e e') : e'.isValid = e.isValid := by
  rw [PageTableEntry.isValid, PageTableEntry.isValid, h.and_eq (by decide)]

theorem Raised.isTable (h : Raised e e') : e'.isTable = e.isTable := by
  have hbit : (2 : Word) &&& restrictBits = 0 := by decide
  rw [PageTableEntry.isTable, PageTableEntry.isTable, h.isValid, h.and_eq hbit]

theorem Raised.outputAddress (h : Raised e e') (level : Nat) :
    e'.outputAddress g level = e.outputAddress g level := by
  rw [PageTableEntry.outputAddress, PageTableEntry.outputAddress, h.isTable]
  split
  · exact h.and_eq (by cases g <;> decide)
  · refine h.and_eq ?_
    have hlow : (((1 : Word) <<< 48) - 1) &&& restrictBits = 0 := by decide
    rw [BitVec.and_comm _ (~~~_), BitVec.and_assoc, hlow]
    exact BitVec.and_zero

theorem Raised.ap (h : Raised e e') : e'.ap = e.ap := by
  refine BitVec.eq_of_getLsbD_eq fun i hi => ?_
  have hbit : restrictBits.getLsbD (6 + i) = false := by
    rcases (by omega : i = 0 ∨ i = 1) with rfl | rfl <;> decide
  have hsame := h.getLsbD_eq hbit (by omega)
  simp only [PageTableEntry.ap, BitVec.getLsbD_setWidth, BitVec.getLsbD_ushiftRight, hsame]

theorem Raised.accessFlag (h : Raised e e') :
    e'.accessFlag = e.accessFlag := h.getLsbD_eq (by decide) (by decide)

/-- The path of the changed memory runs through the same entries. -/
theorem descend_setBits {bits : Word → Word} (hbits : ∀ a, bits a &&& ~~~restrictBits = 0)
    {n : Nat} {tableAddr : Word} {p' : WalkPath}
    (h : descend (setBits bits memory) va g n tableAddr = .ok p') :
    ∃ p, descend memory va g n tableAddr = .ok p ∧ List.Forall₂ Raised p.tables p'.tables ∧
      Raised p.leaf p'.leaf := by
  have hfetch (level : Nat) (tableAddr : Word) (e' : PageTableEntry)
      (h : fetch (setBits bits memory) va g level tableAddr = .ok e') :
      ∃ e, fetch memory va g level tableAddr = .ok e ∧ Raised e e' := by
    unfold fetch setBits at h
    unfold fetch
    cases hm : memory (tableAddr + levelIndex va level g * 8) with
    | none =>
      rw [hm] at h
      cases h
    | some v =>
      rw [hm] at h
      dsimp only [Option.map_some] at h ⊢
      have hr : Raised ⟨v⟩ ⟨v ||| bits (tableAddr + levelIndex va level g * 8)⟩ :=
        ⟨_, hbits _, rfl⟩
      rw [hr.isValid] at h
      split at h
      · cases h
      next hvalid =>
        obtain rfl := Except.ok.inj h
        rw [if_neg hvalid]
        exact ⟨_, rfl, hr⟩
  induction n generalizing tableAddr p' with
  | zero =>
    obtain ⟨e', he', hp⟩ := Result.bind_ok_iff.mp h
    obtain rfl := Except.ok.inj hp
    obtain ⟨e, he, hr⟩ := hfetch 3 tableAddr e' he'
    exact ⟨⟨[], e, 3⟩, Result.bind_ok_iff.mpr ⟨e, he, rfl⟩, List.Forall₂.nil, hr⟩
  | succ n ih =>
    obtain ⟨e', he', hp⟩ := Result.bind_ok_iff.mp h
    obtain ⟨e, he, hr⟩ := hfetch (3 - (n + 1)) tableAddr e' he'
    rw [hr.isTable] at hp
    split at hp
    · next htable =>
      obtain ⟨q', hq', hp⟩ := Result.bind_ok_iff.mp hp
      obtain rfl := Except.ok.inj hp
      rw [hr.outputAddress] at hq'
      obtain ⟨q, hq, htables, hleaf⟩ := ih hq'
      refine ⟨{ q with tables := e :: q.tables }, Result.bind_ok_iff.mpr ⟨e, he, ?_⟩,
        List.Forall₂.cons hr htables, hleaf⟩
      rw [if_pos htable]
      exact Result.bind_ok_iff.mpr ⟨q, hq, rfl⟩
    · next htable =>
      obtain rfl := Except.ok.inj hp
      refine ⟨⟨[], e, 3 - (n + 1)⟩, Result.bind_ok_iff.mpr ⟨e, he, ?_⟩, List.Forall₂.nil, hr⟩
      rw [if_neg htable]
      rfl

theorem apTable_getLsbD (e : PageTableEntry) {i : Nat} (hi : i < 2) :
    e.apTable.getLsbD i = e.value.getLsbD (61 + i) := by
  rw [PageTableEntry.apTable, BitVec.getLsbD_setWidth, BitVec.getLsbD_ushiftRight,
    decide_eq_true hi, Bool.true_and]

/-- One set of attributes takes away at least what another one does. APTable[0] is the same in
both. -/
structure Restricts (t t' : TableAttributes) : Prop where
  ap0 : t'.ap.getLsbD 0 = t.ap.getLsbD 0
  ap1 : t.ap.getLsbD 1 = true → t'.ap.getLsbD 1 = true
  uxn : t.uxn = true → t'.uxn = true
  pxn : t.pxn = true → t'.pxn = true

theorem Restricts.accumulate {t t' : TableAttributes} (h : Restricts t t') (hr : Raised e e') :
    Restricts (t.accumulate e) (t'.accumulate e') := by
  have hap0 : e'.value.getLsbD 61 = e.value.getLsbD 61 := hr.getLsbD_eq (by decide) (by decide)
  have hap1 : e.value.getLsbD 62 = true → e'.value.getLsbD 62 = true := hr.getLsbD_of_set
  have huxn : e.value.getLsbD 60 = true → e'.value.getLsbD 60 = true := hr.getLsbD_of_set
  have hpxn : e.value.getLsbD 59 = true → e'.value.getLsbD 59 = true := hr.getLsbD_of_set
  constructor
  · simp only [TableAttributes.accumulate, BitVec.getLsbD_or, h.ap0,
      apTable_getLsbD _ Nat.two_pos, hap0]
  · simp only [TableAttributes.accumulate, BitVec.getLsbD_or, apTable_getLsbD _ Nat.one_lt_two,
      Bool.or_eq_true]
    exact Or.imp h.ap1 hap1
  · simp only [TableAttributes.accumulate, Bool.or_eq_true]
    exact Or.imp h.uxn huxn
  · simp only [TableAttributes.accumulate, Bool.or_eq_true]
    exact Or.imp h.pxn hpxn

theorem restricts_foldl {tables tables' : List PageTableEntry} {t t' : TableAttributes}
    (h : Restricts t t') (hr : List.Forall₂ Raised tables tables') :
    Restricts (tables.foldl TableAttributes.accumulate t)
      (tables'.foldl TableAttributes.accumulate t') := by
  induction hr generalizing t t' with
  | nil => exact h
  | cons he _ ih => exact ih (h.accumulate he)

/-- The check is monotone: what passes under more attributes passes under fewer, WXN apart. -/
theorem checkPermissions_of_restricts {t t' : TableAttributes} {level level' : Nat}
    (hr : Raised e e') (h : Restricts t t') (hwxn : ¬ (c.wxn = true ∧ access.isExecute = true))
    (hok : c.checkPermissions e' access t' level' va = .ok ()) :
    c.checkPermissions e access t level va = .ok () := by
  obtain ⟨hwrite, hread, hexec⟩ := checkPermissions_ok_iff.mp hok
  have hbit0 : (e'.ap ||| t'.ap).getLsbD 0 = (e.ap ||| t.ap).getLsbD 0 := by
    rw [BitVec.getLsbD_or, BitVec.getLsbD_or, hr.ap, h.ap0]
  have hbit1 : (e'.ap ||| t'.ap).getLsbD 1 = false → (e.ap ||| t.ap).getLsbD 1 = false := by
    rw [BitVec.getLsbD_or, BitVec.getLsbD_or, hr.ap]
    have hap1 := h.ap1
    cases ht : t.ap.getLsbD 1 with
    | false => exact fun hfalse => by rw [Bool.or_false, (Bool.or_eq_false_iff.mp hfalse).1]
    | true =>
      rw [hap1 ht, Bool.or_true]
      exact fun hfalse => absurd hfalse (by decide)
  have hw : writeOk access.privileged (e'.ap ||| t'.ap) = true →
      writeOk access.privileged (e.ap ||| t.ap) = true := by
    cases access.privileged with
    | true =>
      rw [writeOk_privileged, writeOk_privileged, Bool.not_eq_true', Bool.not_eq_true']
      exact hbit1
    | false =>
      rw [writeOk_el0, writeOk_el0, hbit0, Bool.and_eq_true, Bool.and_eq_true,
        Bool.not_eq_true', Bool.not_eq_true']
      exact And.imp_right hbit1
  have hread' : readOk access.privileged (e'.ap ||| t'.ap) =
      readOk access.privileged (e.ap ||| t.ap) := by
    cases access.privileged with
    | true => rfl
    | false => rw [readOk_el0, readOk_el0, hbit0]
  have huxn : e'.uxn = e.uxn := hr.getLsbD_eq (by decide) (by decide)
  have hpxn : e'.pxn = e.pxn := hr.getLsbD_eq (by decide) (by decide)
  have hxn : executeNever e' access.privileged t' = false →
      executeNever e access.privileged t = false := by
    unfold executeNever
    rw [huxn, hpxn]
    have := h.uxn
    have := h.pxn
    cases access.privileged <;> simp <;> grind
  refine checkPermissions_ok_iff.mpr ⟨fun hwr => hw (hwrite hwr), fun hnw hnx => ?_,
    fun hx => ⟨hxn (hexec hx).1, fun hc => absurd ⟨hc, hx⟩ hwxn⟩⟩
  rw [← hread']
  exact hread hnw hnx

/-! ## Results -/

/-- A table descriptor takes away an unprivileged access: writes by APTable[1], execution by
UXNTable. -/
def PageTableEntry.Forbids (t : PageTableEntry) (access : Access) : Prop :=
  access.isWrite = true ∧ t.apTable.getLsbD 1 = true ∨
    access.isExecute = true ∧ t.uxnTable = true

theorem leaf_permits_of_ok {p : WalkPath} (hp : access.privileged = false)
    (hok : c.checkPermissions p.leaf access p.fromTable p.level va = .ok ())
    (hap : ∀ t ∈ p.tables, t.apTable.getLsbD 0 = false) :
    { c with wxn := false }.checkPermissions p.leaf access {} p.level va = .ok () ∧
      ∀ t ∈ p.tables, ¬ t.Forbids access := by
  obtain ⟨hwrite, hread, hexec⟩ := checkPermissions_ok_iff.mp hok
  have h0 : p.fromTable.ap.getLsbD 0 = false := by
    rw [WalkPath.fromTable, foldl_accumulate_ap, List.any_eq_false.mpr fun t ht => by
      rw [hap t ht]
      decide]
    rfl
  have hbit0 : (p.leaf.ap ||| p.fromTable.ap).getLsbD 0 = p.leaf.ap.getLsbD 0 := by
    rw [BitVec.getLsbD_or, h0, Bool.or_false]
  have hzero : p.leaf.ap ||| ({} : TableAttributes).ap = p.leaf.ap := BitVec.or_zero
  rw [hp, writeOk_el0, hbit0, BitVec.getLsbD_or] at hwrite
  rw [hp, readOk_el0, hbit0] at hread
  rw [hp] at hexec
  constructor
  · refine checkPermissions_ok_iff.mpr ⟨fun hw => ?_, fun hnw hnx => ?_, fun hx => ⟨?_, ?_⟩⟩
    · rw [hp, hzero, writeOk_el0]
      have := hwrite hw
      grind
    · rw [hp, hzero, readOk_el0]
      exact hread hnw hnx
    · rw [hp]
      have hnever := (hexec hx).1
      simp only [executeNever, Bool.false_eq_true, if_false, Bool.or_eq_false_iff] at hnever ⊢
      exact ⟨hnever.1, trivial⟩
    · exact fun hc => absurd hc Bool.false_ne_true
  · rintro t ht (⟨hw, hset⟩ | ⟨hx, hset⟩)
    · have hbit : p.fromTable.ap.getLsbD 1 = true := by
        rw [WalkPath.fromTable, foldl_accumulate_ap, List.any_eq_true.mpr ⟨t, ht, hset⟩,
          Bool.or_true]
      have := hwrite hw
      grind
    · have hbit : p.fromTable.uxn = true := by
        rw [WalkPath.fromTable, foldl_accumulate_uxn, List.any_eq_true.mpr ⟨t, ht, hset⟩,
          Bool.or_true]
      have hnever := (hexec hx).1
      simp only [executeNever, Bool.false_eq_true, if_false, hbit, Bool.or_true] at hnever
      cases hnever

theorem translate_of_setBits {mmu : Mmu} {bits : Word → Word}
    (hbits : ∀ a, bits a &&& ~~~restrictBits = 0)
    (hwxn : ¬ (mmu.config.wxn = true ∧ access.isExecute = true))
    (h : ∃ d, mmu.translate va (setBits bits memory) access = .ok d) :
    ∃ d, mmu.translate va memory access = .ok d := by
  cases he : mmu.config.enabled with
  | false =>
    unfold Mmu.translate
    simp [he]
  | true =>
    obtain ⟨p', hpath', hflag, hcheck⟩ := (translate_ok_iff he).mp h
    obtain ⟨⟨ttbr, tsz, g⟩, hselect, hdescend⟩ := Result.bind_ok_iff.mp hpath'
    obtain ⟨p, hp, htables, hleaf⟩ := descend_setBits hbits hdescend
    refine (translate_ok_iff he).mpr
      ⟨p, Result.bind_ok_iff.mpr ⟨_, hselect, hp⟩, hleaf.accessFlag ▸ hflag, ?_⟩
    have hrestricts : Restricts p.fromTable p'.fromTable :=
      restricts_foldl ⟨rfl, id, id, id⟩ htables
    exact checkPermissions_of_restricts hleaf hrestricts hwxn hcheck

/-- Table attributes other than APTable[0] only restrict. An unprivileged access succeeds only if
the leaf alone permits it, the WXN check apart, and no table on the path forbids it; setting
restricting bits anywhere in memory never turns a fault into a translation, execution under WXN
apart. -/
theorem table_attributes_restrict (mmu : Mmu) (va : Word) (memory : Word → Option Word)
    (access : Access) (he : mmu.config.enabled = true) :
    (access.privileged = false → (∃ d, mmu.translate va memory access = .ok d) →
      ∃ p, mmu.path va memory = .ok p ∧
        ((∀ t ∈ p.tables, t.apTable.getLsbD 0 = false) →
          { mmu.config with wxn := false }.checkPermissions p.leaf access {} p.level va = .ok () ∧
          ∀ t ∈ p.tables, ¬ t.Forbids access)) ∧
    ∀ bits : Word → Word, (∀ a, bits a &&& ~~~restrictBits = 0) →
      ¬ (mmu.config.wxn = true ∧ access.isExecute = true) →
      (∃ f, mmu.translate va memory access = .error f) →
      ∃ f, mmu.translate va (setBits bits memory) access = .error f := by
  constructor
  · intro hp hok
    obtain ⟨p, hpath, -, hcheck⟩ := (translate_ok_iff he).mp hok
    exact ⟨p, hpath, leaf_permits_of_ok hp hcheck⟩
  · rintro bits hbits hwxn ⟨f, hf⟩
    cases hset : mmu.translate va (setBits bits memory) access with
    | error f' => exact ⟨f', rfl⟩
    | ok d =>
      obtain ⟨d', hd'⟩ := translate_of_setBits hbits hwxn ⟨d, hset⟩
      rw [hf] at hd'
      cases hd'

/-- A unit with one table above the pages: `va = 0` is mapped writable for everyone. -/
def twoLevelUnit (wxn : Bool) : Mmu :=
  Mmu.withConfig { enabled := true, t0sz := 34, ttbr0 := 0x1000, wxn := wxn }

def twoLevelTables : Word → Option Word := fun a =>
  if a = 0x1000 then some 0x2003 else if a = 0x2000 then some 0x3443 else none

theorem table_attributes_restrict_two_levels :
    (∃ d, (twoLevelUnit false).translate 0 twoLevelTables ⟨true, false, false⟩ = .ok d) ∧
    ∃ p, (twoLevelUnit false).path 0 twoLevelTables = .ok p ∧
      ((∀ t ∈ p.tables, t.apTable.getLsbD 0 = false) →
        { (twoLevelUnit false).config with wxn := false }.checkPermissions p.leaf
          ⟨true, false, false⟩ {} p.level 0 = .ok () ∧
        ∀ t ∈ p.tables, ¬ t.Forbids ⟨true, false, false⟩) :=
  ⟨⟨_, rfl⟩, (table_attributes_restrict (twoLevelUnit false) 0 twoLevelTables
    ⟨true, false, false⟩ rfl).1 rfl ⟨_, rfl⟩⟩

/-- Under WXN the writable page cannot be executed; with APTable[1] set in the table above it the
page is read-only and executes. -/
theorem ap_table_opens_execution_under_wxn :
    (twoLevelUnit true).translate 0 twoLevelTables ⟨false, true, false⟩ =
      .error (stage1Fault .permission 3 0) ∧
    ∃ d, (twoLevelUnit true).translate 0
      (setBits (fun a => if a = 0x1000 then 0x4000000000000000 else 0) twoLevelTables)
      ⟨false, true, false⟩ = .ok d :=
  ⟨rfl, _, rfl⟩

end Rax.Aarch64

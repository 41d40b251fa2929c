import Rax.Devices.Pci

/-!
# Routing by base address registers

Between writes, the base kept beside each endpoint is the one that its configuration space asks
for, also while a register is put together byte by byte. So an access is routed by what the guest
reads back from the register, with three provisos: a base of zero is not decoded, neither is a
register whose address bits are all set, and of several endpoints that decode an address the one
attached first gets the access. Read-back does not clear the bits below the size, so the guest
sees the decoded base as long as it writes a base that is aligned to the size.
-/

namespace Rax.Devices

section Bits

variable {w : Nat} {x t m : BitVec w}

theorem and_not_of_and_eq_zero (h : x &&& m = 0) : x &&& ~~~m = x := by
  refine BitVec.eq_of_getLsbD_eq fun i hi => ?_
  have hbit : (x &&& m).getLsbD i = false := by rw [h]; exact BitVec.getLsbD_zero
  rw [BitVec.getLsbD_and] at hbit
  rw [BitVec.getLsbD_and, BitVec.getLsbD_not]
  cases hx : x.getLsbD i with
  | false => rfl
  | true => simpa [hx, hi] using hbit

theorem or_and_mask (h : t &&& m = t) : (x &&& ~~~m ||| t) &&& m = t := by
  refine BitVec.eq_of_getLsbD_eq fun i hi => ?_
  have hbit : (t &&& m).getLsbD i = t.getLsbD i := by rw [h]
  simp only [BitVec.getLsbD_and, BitVec.getLsbD_or, BitVec.getLsbD_not, hi, decide_true,
    Bool.true_and] at hbit ⊢
  cases hm : m.getLsbD i <;> simp [hm] at hbit ⊢
  exact hbit

theorem or_and_not_mask (h : t &&& m = t) : (x &&& ~~~m ||| t) &&& ~~~m = x &&& ~~~m := by
  refine BitVec.eq_of_getLsbD_eq fun i hi => ?_
  have hbit : (t &&& m).getLsbD i = t.getLsbD i := by rw [h]
  simp only [BitVec.getLsbD_and, BitVec.getLsbD_or, BitVec.getLsbD_not, hi, decide_true,
    Bool.true_and] at hbit ⊢
  cases hm : m.getLsbD i <;> simp [hm] at hbit ⊢
  simp [hbit]

end Bits

/-- The address in a register value. -/
def addressPart (io : Bool) (value : Reg) : Reg := value &&& ~~~lowBitsMask io

namespace Bar

variable {bar : Bar} {raw : Reg}

theorem typeBits_and_low (bar : Bar) : bar.typeBits &&& lowBitsMask bar.io = bar.typeBits := by
  obtain ⟨size, io, prefetchable, bits64⟩ := bar
  cases io <;> cases prefetchable <;> cases bits64 <;> simp [typeBits, lowBitsMask]

/-- The guest asks for the size, or has written a base that is a multiple of it. -/
def Settled (bar : Bar) (raw : Reg) : Prop :=
  isProbe bar.io raw = true ∨ addressPart bar.io raw &&& (bar.size - 1) = 0

theorem readBack_eq (hsize : bar.size ≠ 0) (raw : Reg) :
    ∃ x, bar.readBack raw = x &&& ~~~lowBitsMask bar.io ||| bar.typeBits ∧
      (isProbe bar.io raw = false → x = raw) ∧
      (isProbe bar.io raw = true → x = ~~~(bar.size - 1)) := by
  cases hprobe : isProbe bar.io raw with
  | true =>
    refine ⟨~~~(bar.size - 1), ?_, nofun, fun _ => rfl⟩
    rw [readBack, if_pos hprobe, sizeMask, if_neg hsize]
  | false =>
    refine ⟨raw, ?_, fun _ => rfl, nofun⟩
    simp [readBack, hprobe]

theorem readBack_typeBits (hsize : bar.size ≠ 0) (raw : Reg) :
    bar.readBack raw &&& lowBitsMask bar.io = bar.typeBits := by
  obtain ⟨x, hread, -, -⟩ := readBack_eq hsize raw
  rw [hread, or_and_mask bar.typeBits_and_low]

theorem addressPart_readBack (hsize : bar.size ≠ 0) (h : isProbe bar.io raw = false) :
    addressPart bar.io (bar.readBack raw) = addressPart bar.io raw := by
  obtain ⟨x, hread, hplain, -⟩ := readBack_eq hsize raw
  rw [addressPart, hread, or_and_not_mask bar.typeBits_and_low, hplain h, addressPart]

/-- The bits below the size are clear in a settled register. -/
theorem addressPart_readBack_below (hsize : bar.size ≠ 0) (h : bar.Settled raw) :
    addressPart bar.io (bar.readBack raw) &&& (bar.size - 1) = 0 := by
  cases hprobe : isProbe bar.io raw with
  | true =>
    obtain ⟨x, hread, -, hmask⟩ := readBack_eq hsize raw
    rw [addressPart, hread, or_and_not_mask bar.typeBits_and_low, hmask hprobe,
      BitVec.and_assoc, BitVec.and_comm (~~~lowBitsMask bar.io), ← BitVec.and_assoc,
      BitVec.and_comm (~~~(bar.size - 1)), BitVec.and_not_self]
    exact BitVec.zero_and
  | false =>
    rw [addressPart_readBack hsize hprobe]
    rcases h with h | h
    · rw [hprobe] at h
      cases h
    · exact h

end Bar

namespace ConfigSpace

theorem barAt_bar (cs : ConfigSpace) {index : Nat} (h : index < 6) :
    cs.barAt (0x10 + index * 4) = cs.bars index := by
  have hindex : (0x10 + index * 4 - 0x10) / 4 = index := by omega
  rw [barAt, if_neg (by omega), hindex, if_pos h]

end ConfigSpace

namespace PciStub

variable {δ : Type} {pci : PciStub δ} {ep : PciEndpoint δ}

/-- The base address registers of each function, as its devices were built. -/
abbrev Layout := FunctionKey → Nat → Option Bar

/-- An endpoint is behind a base address register of its function. -/
structure Behind (layout : Layout) (functions : FunctionKey → Option ConfigSpace)
    (ep : PciEndpoint δ) : Prop where
  config : ∃ cs, functions ep.key = some cs ∧ cs.bars = layout ep.key
  index : ep.barIndex < 6
  bar : ∃ bar, layout ep.key ep.barIndex = some bar ∧ bar.io = ep.io ∧
    ep.barSize = bar.size.setWidth 64
  handler : ep.handler.io = ep.io

/-- Every endpoint is behind its register and decodes the base that the register asks for. -/
structure Wired (layout : Layout) (pci : PciStub δ) : Prop where
  behind : ∀ ep ∈ pci.endpoints, Behind layout pci.functions ep
  base : ∀ ep ∈ pci.endpoints, ep.currentBase = baseOf pci.functions ep

variable {layout : Layout}

theorem wired_recomputeBases (h : ∀ ep ∈ pci.endpoints, Behind layout pci.functions ep) :
    Wired layout pci.recomputeBases := by
  constructor
  · intro ep hep
    obtain ⟨ep', hep', rfl⟩ := List.mem_map.mp hep
    obtain ⟨hconfig, hindex, hbar, hhandler⟩ := h ep' hep'
    exact ⟨hconfig, hindex, hbar, hhandler⟩
  · intro ep hep
    obtain ⟨ep', -, rfl⟩ := List.mem_map.mp hep
    rfl

variable {cs : ConfigSpace}

theorem Behind.addFunction (h : Behind layout pci.functions ep) {key : FunctionKey}
    (hcs : cs.bars = layout key) :
    Behind layout (pci.addFunction key cs).functions ep := by
  refine ⟨?_, h.index, h.bar, h.handler⟩
  by_cases hkey : ep.key = key
  · exact ⟨cs, if_pos hkey, hkey ▸ hcs⟩
  · obtain ⟨cs', hfound, hbars⟩ := h.config
    exact ⟨cs', (if_neg hkey).trans hfound, hbars⟩

theorem Wired.writeConfigDword (h : Wired layout pci) (value : Reg) :
    Wired layout (pci.writeConfigDword value) := by
  unfold PciStub.writeConfigDword
  split
  · exact h
  · rename_i key register _
    split
    · exact h
    · rename_i cs hcs
      by_cases hempty : pci.endpoints.isEmpty = true
      · have hnone : ∀ ep, ep ∉ pci.endpoints := by
          rw [List.isEmpty_iff.mp hempty]
          exact fun _ => List.not_mem_nil
        simp only [PciStub.addFunction, hempty, if_true]
        exact ⟨fun ep hep => absurd hep (hnone ep), fun ep hep => absurd hep (hnone ep)⟩
      · simp only [PciStub.addFunction, hempty]
        refine wired_recomputeBases fun ep hep => ?_
        obtain ⟨⟨cs', hfound, hbars⟩, hindex, hbar, hhandler⟩ := h.behind ep hep
        refine ⟨?_, hindex, hbar, hhandler⟩
        by_cases hkey : ep.key = key
        · -- The function that is written keeps its registers.
          subst hkey
          cases hcs.symm.trans hfound
          exact ⟨_, if_pos rfl, hbars⟩
        · exact ⟨cs', (if_neg hkey).trans hfound, hbars⟩

theorem Wired.write (h : Wired layout pci) (port : BitVec 16) (value : Byte) :
    Wired layout (pci.write port value) := by
  unfold PciStub.write
  split
  · exact ⟨h.behind, h.base⟩
  · split
    · exact h.writeConfigDword _
    · exact h

/-- How a device is attached. -/
structure Attachment (δ : Type) where
  key : FunctionKey
  config : ConfigSpace
  barIndex : Nat
  handler : PciHandler δ

/-- A device is attached to one of its registers, of the right kind. -/
structure Attachment.Fits (layout : Layout) (a : Attachment δ) : Prop where
  config : a.config.bars = layout a.key
  index : a.barIndex < 6
  bar : ∃ bar, layout a.key a.barIndex = some bar ∧ bar.io = a.handler.io

theorem Wired.attach (h : Wired layout pci) {a : Attachment δ} (ha : a.Fits layout) :
    Wired layout (pci.attach a.key a.config a.barIndex a.handler) := by
  refine wired_recomputeBases fun ep hep => ?_
  rcases List.mem_append.mp hep with hep | hep
  · exact (h.behind ep hep).addFunction ha.config
  · cases List.mem_singleton.mp hep
    obtain ⟨bar, hbar, hio⟩ := ha.bar
    refine ⟨⟨a.config, if_pos rfl, ha.config⟩, ha.index, ⟨bar, hbar, hio, ?_⟩, rfl⟩
    rw [← ha.config] at hbar
    simp only [hbar]
    rfl

/-- A bridge with plain functions and then the attached devices. -/
def build (functions : List (FunctionKey × ConfigSpace)) (attachments : List (Attachment δ)) :
    PciStub δ :=
  attachments.foldl (fun pci a => pci.attach a.key a.config a.barIndex a.handler)
    (functions.foldl (fun pci f => pci.addFunction f.1 f.2) new)

def writes (pci : PciStub δ) (accesses : List (BitVec 16 × Byte)) : PciStub δ :=
  accesses.foldl (fun pci access => pci.write access.1 access.2) pci

theorem Wired.writes (h : Wired layout pci) (accesses : List (BitVec 16 × Byte)) :
    Wired layout (pci.writes accesses) := by
  induction accesses generalizing pci with
  | nil => exact h
  | cons access accesses ih => exact ih (h.write access.1 access.2)

theorem wired_build (functions : List (FunctionKey × ConfigSpace))
    {attachments : List (Attachment δ)} (h : ∀ a ∈ attachments, a.Fits layout) :
    Wired layout (build functions attachments) := by
  have hplain : ∀ (fs : List (FunctionKey × ConfigSpace)) (pci : PciStub δ), pci.endpoints = [] →
      (fs.foldl (fun pci f => pci.addFunction f.1 f.2) pci).endpoints = [] := by
    intro fs
    induction fs with
    | nil => exact fun _ hnone => hnone
    | cons f fs ih => exact fun pci hnone => ih _ hnone
  have hattach : ∀ {pci : PciStub δ}, Wired layout pci → Wired layout
      (attachments.foldl (fun pci a => pci.attach a.key a.config a.barIndex a.handler) pci) := by
    induction attachments with
    | nil => exact fun hwired => hwired
    | cons a as ih =>
      obtain ⟨ha, has⟩ := List.forall_mem_cons.mp h
      exact fun hwired => ih has (hwired.attach ha)
  have hnone := hplain functions new rfl
  refine hattach ⟨fun ep hep => ?_, fun ep hep => ?_⟩ <;>
    · rw [hnone] at hep
      cases hep

/-- The register of an endpoint, as it is stored. -/
def rawBar (cs : ConfigSpace) (ep : PciEndpoint δ) : Reg := cs.getU32 (0x10 + ep.barIndex * 4)

/-- COMMAND enables the accesses, the register is neither zero nor probed, and the address lies
in the window at the address part of the value. -/
structure Decoded (cs : ConfigSpace) (bar : Bar) (raw value : Reg) (addr : Word) : Prop where
  enabled : cs.decodes bar.io = true
  notProbe : isProbe bar.io raw = false
  notZero : addressPart bar.io value ≠ 0
  lower : (addressPart bar.io value).toNat ≤ addr.toNat
  upper : addr.toNat < (addressPart bar.io value).toNat + bar.size.toNat

/-- The base that a settled register decodes. -/
theorem baseOf_eq {bar : Bar} (hcs : pci.functions ep.key = some cs) (hio : bar.io = ep.io)
    (hbarSize : ep.barSize = bar.size.setWidth 64) (hsize : bar.size ≠ 0)
    (hsettled : bar.Settled (rawBar cs ep)) :
    baseOf pci.functions ep =
      if cs.decodes bar.io = true ∧ isProbe bar.io (rawBar cs ep) = false then
        (addressPart bar.io (bar.readBack (rawBar cs ep))).setWidth 64
      else 0 := by
  have hwindow : (if ep.barSize = 0 then 1 else ep.barSize).setWidth 32 = bar.size := by
    have hne : ep.barSize ≠ 0 := by
      intro hzero
      refine hsize (BitVec.eq_of_toNat_eq ?_)
      have htoNat := congrArg BitVec.toNat (hbarSize.symm.trans hzero)
      rwa [BitVec.toNat_setWidth_of_le (by decide)] at htoNat
    rw [if_neg hne, hbarSize, BitVec.setWidth_setWidth_of_le _ (by decide), BitVec.setWidth_eq]
  simp only [baseOf, hcs, hwindow, ← hio]
  rw [show cs.getU32 (0x10 + ep.barIndex * 4) = rawBar cs ep from rfl]
  cases hprobe : isProbe bar.io (rawBar cs ep) with
  | true => simp
  | false =>
    have haligned : addressPart bar.io (rawBar cs ep) &&& (bar.size - 1) = 0 := by
      rcases hsettled with h | h
      · rw [hprobe] at h
        cases h
      · exact h
    have hbase : rawBar cs ep &&& ~~~(bar.size - 1) &&& ~~~lowBitsMask bar.io =
        addressPart bar.io (bar.readBack (rawBar cs ep)) := by
      rw [Bar.addressPart_readBack hsize hprobe, BitVec.and_assoc,
        BitVec.and_comm (~~~(bar.size - 1)), ← BitVec.and_assoc]
      exact and_not_of_and_eq_zero haligned
    rw [hbase]
    generalize (addressPart bar.io (bar.readBack (rawBar cs ep))).setWidth 64 = base
    cases cs.decodes bar.io with
    | false => rfl
    | true =>
      by_cases hzero : base = 0#64
      · simp [hzero]
      · simp [hzero]

theorem serves_iff (h : Wired layout pci) (hep : ep ∈ pci.endpoints) {bar : Bar}
    (hcs : pci.functions ep.key = some cs) (hbar : layout ep.key ep.barIndex = some bar)
    (hsize : bar.size ≠ 0) (hsettled : bar.Settled (rawBar cs ep)) (addr : Word) :
    serves ep.io addr ep = true ↔
      Decoded cs bar (rawBar cs ep) (bar.readBack (rawBar cs ep)) addr := by
  obtain ⟨-, -, ⟨bar', hbar', hio, hbarSize⟩, hhandler⟩ := h.behind ep hep
  cases hbar.symm.trans hbar'
  have hbase := (h.base ep hep).trans (baseOf_eq hcs hio hbarSize hsize hsettled)
  have hserves : serves ep.io addr ep = true ↔ ep.currentBase ≠ 0 ∧ ep.currentBase ≤ addr ∧
      addr < ep.currentBase + ep.barSize := by
    simp [serves, hhandler]
  rw [hserves]
  by_cases hon : cs.decodes bar.io = true ∧ isProbe bar.io (rawBar cs ep) = false
  · rw [if_pos hon] at hbase
    generalize haddr : addressPart bar.io (bar.readBack (rawBar cs ep)) = part at hbase
    have hpart : (part.setWidth 64).toNat = part.toNat := BitVec.toNat_setWidth_of_le (by decide)
    have hwindow : (bar.size.setWidth 64).toNat = bar.size.toNat :=
      BitVec.toNat_setWidth_of_le (by decide)
    have hsum : (part.setWidth 64 + bar.size.setWidth 64).toNat =
        part.toNat + bar.size.toNat := by
      have hlt := part.isLt
      have hlt' := bar.size.isLt
      rw [BitVec.toNat_add, hpart, hwindow]
      omega
    have hzero : part.setWidth 64 ≠ 0 ↔ part ≠ 0 := by
      rw [not_iff_not, ← BitVec.toNat_inj, ← BitVec.toNat_inj, hpart]
      rfl
    rw [hbase, hbarSize, hzero, BitVec.le_def, BitVec.lt_def, hpart, hsum]
    constructor
    · rintro ⟨hne, hle, hlt⟩
      exact ⟨hon.1, hon.2, haddr ▸ hne, haddr ▸ hle, haddr ▸ hlt⟩
    · rintro ⟨-, -, hne, hle, hlt⟩
      rw [haddr] at hne hle hlt
      exact ⟨hne, hle, hlt⟩
  · rw [if_neg hon] at hbase
    constructor
    · rintro ⟨hne, -⟩
      exact absurd hbase hne
    · rintro ⟨henabled, hprobe, -⟩
      exact absurd ⟨henabled, hprobe⟩ hon

/-- An access goes to the endpoint at a position. -/
def Routed {α : Type} (target : Option (Nat × α)) (i : Nat) : Prop :=
  target.map Prod.fst = some i

theorem routed_target_iff {io : Bool} {addr : Word} {i : Nat} :
    Routed (pci.target io addr) i ↔ pci.endpoints.findIdx? (serves io addr) = some i := by
  cases hfind : pci.endpoints.findIdx? (serves io addr) with
  | none => simp [Routed, target, hfind]
  | some j =>
    obtain ⟨hj, -⟩ := List.findIdx?_eq_some_iff_getElem.mp hfind
    simp [Routed, target, hfind, List.getElem?_eq_getElem hj]

/-- The first endpoint that serves an address gets it. -/
theorem routed_iff_serves {i : Nat} (hi : pci.endpoints[i]? = some ep) (addr : Word) :
    Routed (pci.target ep.io addr) i ↔
      serves ep.io addr ep = true ∧ ∀ j < i, ¬ Routed (pci.target ep.io addr) j := by
  obtain ⟨hlt, hget⟩ := List.getElem?_eq_some_iff.mp hi
  simp only [routed_target_iff]
  constructor
  · intro hfind
    obtain ⟨_, hserves, -⟩ := List.findIdx?_eq_some_iff_getElem.mp hfind
    refine ⟨hget ▸ hserves, fun j hj hother => ?_⟩
    exact Nat.ne_of_lt hj (Option.some.inj (hother.symm.trans hfind))
  · rintro ⟨hserves, hearlier⟩
    cases hfind : pci.endpoints.findIdx? (serves ep.io addr) with
    | none =>
      have hnone := List.findIdx?_eq_none_iff.mp hfind ep (List.mem_of_getElem? hi)
      rw [hserves] at hnone
      cases hnone
    | some j =>
      obtain ⟨hj, -, hfirst⟩ := List.findIdx?_eq_some_iff_getElem.mp hfind
      rcases Nat.lt_trichotomy j i with h | h | h
      · exact absurd hfind (hearlier j h)
      · rw [h]
      · exact absurd (hget ▸ hserves) (hfirst i h)

/-- What the guest sees of an endpoint's register, and the accesses that go to the endpoint. -/
structure RoutedByBar (pci : PciStub δ) (i : Nat) (cs : ConfigSpace) (bar : Bar)
    (raw value : Reg) : Prop where
  typeBits : value &&& lowBitsMask bar.io = bar.typeBits
  below : addressPart bar.io value &&& (bar.size - 1) = 0
  mmio : bar.io = false → ∀ addr, Routed (pci.mmioTarget addr) i ↔
    Decoded cs bar raw value addr ∧ ∀ j < i, ¬ Routed (pci.mmioTarget addr) j
  pio : bar.io = true → ∀ port, Routed (pci.ioTarget port) i ↔
    Decoded cs bar raw value (port.setWidth 64) ∧ ∀ j < i, ¬ Routed (pci.ioTarget port) j

theorem routed_ioTarget_iff {port : BitVec 16} {i : Nat} :
    Routed (pci.ioTarget port) i ↔ Routed (pci.target true (port.setWidth 64)) i := by
  rw [Routed, ioTarget, Option.map_map, Routed]
  rfl

theorem readConfigDword_bar {bar : Bar} {latch : Reg}
    (hlatch : decodeAddress latch = some (ep.key, 0x10 + ep.barIndex * 4))
    (hcs : pci.functions ep.key = some cs) (hindex : ep.barIndex < 6)
    (hbar : cs.bars ep.barIndex = some bar) :
    { pci with address := latch }.readConfigDword = bar.readBack (rawBar cs ep) := by
  simp only [readConfigDword, hlatch, hcs, cs.barAt_bar hindex, hbar]
  rfl

/-- After every sequence of byte writes to the ports, accesses are routed to an attached endpoint
by the value that the guest reads back from its register, if that register is settled. -/
theorem writes_routedByBar {layout : Layout} (functions : List (FunctionKey × ConfigSpace))
    (attachments : List (Attachment δ)) (hfits : ∀ a ∈ attachments, a.Fits layout)
    (accesses : List (BitVec 16 × Byte)) {i : Nat} {ep : PciEndpoint δ} {bar : Bar}
    {cs : ConfigSpace} {latch : Reg}
    (hep : ((build functions attachments).writes accesses).endpoints[i]? = some ep)
    (hcs : ((build functions attachments).writes accesses).functions ep.key = some cs)
    (hbar : layout ep.key ep.barIndex = some bar) (hsize : bar.size ≠ 0)
    (hsettled : bar.Settled (rawBar cs ep))
    (hlatch : decodeAddress latch = some (ep.key, 0x10 + ep.barIndex * 4)) :
    RoutedByBar ((build functions attachments).writes accesses) i cs bar (rawBar cs ep)
      { (build functions attachments).writes accesses with address := latch }.readConfigDword := by
  have hwired := (wired_build functions hfits).writes accesses
  generalize (build functions attachments).writes accesses = pci at *
  have hmem := List.mem_of_getElem? hep
  obtain ⟨⟨cs', hcs', hbars⟩, hindex, ⟨bar', hbar', hio, -⟩, -⟩ := hwired.behind ep hmem
  cases hcs.symm.trans hcs'
  cases hbar.symm.trans hbar'
  rw [readConfigDword_bar hlatch hcs hindex (hbars ▸ hbar)]
  have hserves := serves_iff hwired hmem hcs hbar hsize hsettled
  have hrouted := routed_iff_serves hep
  refine ⟨Bar.readBack_typeBits hsize _, Bar.addressPart_readBack_below hsize hsettled, ?_, ?_⟩
  · intro hmmio addr
    rw [hio.symm.trans hmmio] at hserves hrouted
    rw [← hserves addr]
    exact hrouted addr
  · intro hpio port
    rw [hio.symm.trans hpio] at hserves hrouted
    simp only [routed_ioTarget_iff]
    rw [← hserves]
    exact hrouted _

/-- A function with one memory register of 4 KiB, its device attached to it. -/
def oneDevice : Attachment Unit where
  key := ⟨0, 1, 0⟩
  config := ConfigSpace.setBar (.device 0x8086 0x100E 0x020000 0) 0 { size := 0x1000 }
  barIndex := 0
  handler := .mmio ()

/-- Memory accesses are enabled and the register is selected. -/
def enableMemory : List (BitVec 16 × Byte) :=
  [(0xCF8, 0x04), (0xCF9, 0x08), (0xCFB, 0x80), (0xCFC, 2), (0xCF8, 0x10)]

/-- The bridge with the device at 0xE0000000. -/
def oneMapped : PciStub Unit :=
  (build [] [oneDevice]).writes (enableMemory ++ [(0xCFF, 0xE0)])

theorem writes_routedByBar_oneDevice :
    ∃ ep cs, oneMapped.endpoints[0]? = some ep ∧ oneMapped.functions ep.key = some cs ∧
      RoutedByBar oneMapped 0 cs { size := 0x1000 } (rawBar cs ep)
        { oneMapped with address := 0x80000810 }.readConfigDword := by
  have hfits : ∀ a ∈ [oneDevice], a.Fits fun _ => oneDevice.config.bars := by
    refine List.forall_mem_singleton.mpr ⟨rfl, by decide, { size := 0x1000 }, rfl, rfl⟩
  refine ⟨_, _, rfl, rfl, ?_⟩
  exact writes_routedByBar [] [oneDevice] hfits (enableMemory ++ [(0xCFF, 0xE0)]) rfl rfl rfl
    (by decide) (Or.inr (by decide +kernel)) (by decide +kernel)

/-- Memory accesses are enabled, and yet a register that holds zero is not decoded, nor one that
is probed; of two devices at one address the first gets the access. A base that is not aligned to
the size reads back with bits below the size, and its window is elsewhere. -/
theorem oneDevice_not_routed :
    (((build [] [oneDevice]).writes enableMemory).readConfigDword = 0 ∧
      ((build [] [oneDevice]).writes enableMemory).mmioTarget 0 = none) ∧
    (((build [] [oneDevice]).writes (enableMemory ++
        [(0xCFC, 0xFF), (0xCFD, 0xFF), (0xCFE, 0xFF), (0xCFF, 0xFF)])).readConfigDword =
          0xFFFFF000 ∧
      ((build [] [oneDevice]).writes (enableMemory ++
        [(0xCFC, 0xFF), (0xCFD, 0xFF), (0xCFE, 0xFF), (0xCFF, 0xFF)])).mmioTarget 0xFFFFF000 =
          none) ∧
    ((build [] [oneDevice, oneDevice]).writes
      (enableMemory ++ [(0xCFF, 0xE0)])).mmioTarget 0xE0000000 = some (0, 0) ∧
    (((build [] [oneDevice]).writes
        (enableMemory ++ [(0xCFD, 8), (0xCFF, 0xE0)])).readConfigDword = 0xE0000800 ∧
      ((build [] [oneDevice]).writes
        (enableMemory ++ [(0xCFD, 8), (0xCFF, 0xE0)])).mmioTarget 0xE0000000 = some (0, 0)) := by
  decide +kernel

end PciStub

end Rax.Devices

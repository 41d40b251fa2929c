import Rax.Lib.Result
import Rax.Lib.Word

/-!
# AArch64 stage 1 translation

The translation-table walk of the AArch64 memory management unit, for the three granules: the
choice of the translation table, the loop over the levels with the attributes it accumulates from
table descriptors, and the permission check on the leaf. Memory is what a 64-bit read at an
address returns.

Stage 2 attributes and the exception level, which the walk does not consult, are left out.
-/

namespace Rax.Aarch64

inductive TranslationGranule
  | granule4KB
  | granule16KB
  | granule64KB
  deriving DecidableEq, Repr

namespace TranslationGranule

def pageOffsetBits : TranslationGranule → Nat
  | granule4KB => 12
  | granule16KB => 14
  | granule64KB => 16

def bitsPerLevel : TranslationGranule → Nat
  | granule4KB => 9
  | granule16KB => 11
  | granule64KB => 13

/-- The address field of a table descriptor. -/
def tableMask : TranslationGranule → Word
  | granule4KB => 0x0000FFFFFFFFF000
  | granule16KB => 0x0000FFFFFFFFC000
  | granule64KB => 0x0000FFFFFFFF0000

/-- The number of address bits below an entry of a level. -/
def levelShift (g : TranslationGranule) (level : Nat) : Nat :=
  g.pageOffsetBits + (3 - level) * g.bitsPerLevel

end TranslationGranule

inductive TranslationFaultType
  | addressSize
  | translation
  | accessFlag
  | permission
  | alignment
  | externalAbort
  deriving DecidableEq, Repr

structure TranslationFault where
  faultType : TranslationFaultType
  level : Nat
  stage2 : Bool
  s1ptw : Bool
  va : Word
  ipa : Option Word
  deriving DecidableEq, Repr

/-- A fault of the stage 1 walk. -/
def stage1Fault (faultType : TranslationFaultType) (level : Nat) (va : Word) :
    TranslationFault :=
  { faultType := faultType, level := level, stage2 := false, s1ptw := false, va := va,
    ipa := none }

/-! ## Descriptors -/

/-- A page-table entry by its raw value. -/
structure PageTableEntry where
  value : Word
  deriving DecidableEq, Repr

namespace PageTableEntry

def isValid (e : PageTableEntry) : Bool := e.value &&& 1 != 0

def isTable (e : PageTableEntry) : Bool := e.isValid && (e.value &&& 2 != 0)

/-- The output address of a table, block or page descriptor. -/
def outputAddress (e : PageTableEntry) (g : TranslationGranule) (level : Nat) : Word :=
  if e.isTable then e.value &&& g.tableMask
  else e.value &&& ((((1 : Word) <<< 48) - 1) &&& ~~~(((1 : Word) <<< g.levelShift level) - 1))

/-- The access permissions AP[2:1]. -/
def ap (e : PageTableEntry) : BitVec 2 := (e.value >>> 6).setWidth 2

def shareability (e : PageTableEntry) : BitVec 2 := (e.value >>> 8).setWidth 2

def accessFlag (e : PageTableEntry) : Bool := e.value.getLsbD 10

def attrIndex (e : PageTableEntry) : BitVec 3 := (e.value >>> 2).setWidth 3

def uxn (e : PageTableEntry) : Bool := e.value.getLsbD 54

def pxn (e : PageTableEntry) : Bool := e.value.getLsbD 53

def contiguous (e : PageTableEntry) : Bool := e.value.getLsbD 52

def gp (e : PageTableEntry) : Bool := e.value.getLsbD 50

/-- APTable[1:0] of a table descriptor. -/
def apTable (e : PageTableEntry) : BitVec 2 := (e.value >>> 61).setWidth 2

def uxnTable (e : PageTableEntry) : Bool := e.value.getLsbD 60

def pxnTable (e : PageTableEntry) : Bool := e.value.getLsbD 59

end PageTableEntry

/-! ## Memory attributes -/

inductive DeviceType
  | nGnRnE
  | nGnRE
  | nGRE
  | gre
  deriving DecidableEq, Repr

inductive MemoryType
  | device (type : DeviceType)
  | normal
  deriving DecidableEq, Repr

inductive Shareability
  | nonShareable
  | outerShareable
  | innerShareable
  deriving DecidableEq, Repr

inductive Cacheability
  | nonCacheable
  | writeThrough
  | writeBack
  deriving DecidableEq, Repr

structure MemoryAttributes where
  memType : MemoryType := .normal
  shareability : Shareability := .nonShareable
  outerCacheable : Cacheability := .nonCacheable
  innerCacheable : Cacheability := .nonCacheable
  deriving DecidableEq, Repr

def decodeCacheability (nibble : BitVec 4) : Cacheability :=
  if nibble &&& 0xC = 0b1000 then .writeThrough
  else if nibble &&& 0xC = 0b1100 then .writeBack
  else .nonCacheable

def decodeMairByte (mair : Byte) : MemoryType × Cacheability × Cacheability :=
  let outer := (mair >>> 4).setWidth 4
  let inner := mair.setWidth 4
  if outer = 0 then
    let deviceType : DeviceType :=
      if inner = 0b0100 then .nGnRE
      else if inner = 0b1000 then .nGRE
      else if inner = 0b1100 then .gre
      else .nGnRnE
    (.device deviceType, .nonCacheable, .nonCacheable)
  else (.normal, decodeCacheability outer, decodeCacheability inner)

/-- The result of a successful translation. -/
structure AddressDescriptor where
  pa : Word
  attributes : MemoryAttributes
  contiguous : Bool
  gp : Bool
  deriving DecidableEq, Repr

/-! ## Configuration -/

structure MmuConfig where
  enabled : Bool := false
  t0sz : Nat := 16
  t1sz : Nat := 16
  tg0 : TranslationGranule := .granule4KB
  tg1 : TranslationGranule := .granule4KB
  ttbr0 : Word := 0
  ttbr1 : Word := 0
  mair : Word := 0
  wxn : Bool := false
  deriving DecidableEq, Repr

/-- Keep the size inside the 48-bit range and leave at least one index bit. -/
def sanitizeTsz (tsz : Nat) (g : TranslationGranule) : Nat :=
  max 16 (min tsz (min 48 (63 - g.pageOffsetBits)))

def MmuConfig.sanitized (c : MmuConfig) : MmuConfig :=
  { c with t0sz := sanitizeTsz c.t0sz c.tg0, t1sz := sanitizeTsz c.t1sz c.tg1 }

theorem sanitizeTsz_idem (tsz : Nat) (g : TranslationGranule) :
    sanitizeTsz (sanitizeTsz tsz g) g = sanitizeTsz tsz g := by
  cases g <;> simp only [sanitizeTsz, TranslationGranule.pageOffsetBits] <;> omega

/-- The unit only ever holds sanitized configurations. -/
structure Mmu where
  config : MmuConfig
  isSanitized : config.sanitized = config

def Mmu.withConfig (c : MmuConfig) : Mmu where
  config := c.sanitized
  isSanitized := by
    simp only [MmuConfig.sanitized, sanitizeTsz_idem]

/-- What is asked of an address. -/
structure Access where
  isWrite : Bool
  isExecute : Bool
  privileged : Bool
  deriving DecidableEq, Repr

/-- Attributes accumulated from the table descriptors on the way. -/
structure TableAttributes where
  ap : BitVec 2 := 0
  uxn : Bool := false
  pxn : Bool := false
  deriving DecidableEq, Repr

def TableAttributes.accumulate (t : TableAttributes) (e : PageTableEntry) : TableAttributes where
  ap := t.ap ||| e.apTable
  uxn := t.uxn || e.uxnTable
  pxn := t.pxn || e.pxnTable

namespace MmuConfig

/-- Select the table, its input size and its granule by the address. -/
def selectTtbr (c : MmuConfig) (va : Word) :
    Except TranslationFault (Word × Nat × TranslationGranule) :=
  if va < 1 <<< (64 - c.t0sz) then .ok (c.ttbr0, c.t0sz, c.tg0)
  else if ~~~(((1 : Word) <<< (64 - c.t1sz)) - 1) ≤ va then .ok (c.ttbr1, c.t1sz, c.tg1)
  else .error (stage1Fault .translation 0 va)

/-- Whether a page with these permissions can be read. -/
def readOk (privileged : Bool) (effectiveAp : BitVec 2) : Bool :=
  if privileged then true else effectiveAp &&& 0b01 != 0

/-- Whether a page with these permissions can be written. -/
def writeOk (privileged : Bool) (effectiveAp : BitVec 2) : Bool :=
  if privileged then effectiveAp &&& 0b10 == 0 else effectiveAp == 0b01

/-- Check the access against the leaf and the attributes of the tables above it. -/
def checkPermissions (c : MmuConfig) (e : PageTableEntry) (access : Access)
    (fromTable : TableAttributes) (level : Nat) (va : Word) : Except TranslationFault Unit :=
  let effectiveAp := e.ap ||| fromTable.ap
  let effectiveUxn := e.uxn || fromTable.uxn
  let effectivePxn := e.pxn || fromTable.pxn
  let write := writeOk access.privileged effectiveAp
  if access.isWrite && !write then .error (stage1Fault .permission level va)
  else if !access.isWrite && !access.isExecute && !readOk access.privileged effectiveAp then
    .error (stage1Fault .permission level va)
  else if access.isExecute then
    if if access.privileged then effectivePxn else effectiveUxn then
      .error (stage1Fault .permission level va)
    else if c.wxn && write then .error (stage1Fault .permission level va)
    else .ok ()
  else .ok ()

def levelIndex (va : Word) (level : Nat) (g : TranslationGranule) : Word :=
  (va >>> g.levelShift level) &&& ((1 <<< g.bitsPerLevel) - 1)

def computePa (va : Word) (e : PageTableEntry) (level : Nat) (g : TranslationGranule) : Word :=
  e.outputAddress g level ||| (va &&& ((1 <<< g.levelShift level) - 1))

def decodeAttributes (c : MmuConfig) (e : PageTableEntry) : MemoryAttributes :=
  let mairByte := (c.mair >>> (e.attrIndex.toNat * 8)).setWidth 8
  let (memType, outer, inner) := decodeMairByte mairByte
  let shareability : Shareability :=
    if e.shareability = 0b10 then .outerShareable
    else if e.shareability = 0b11 then .innerShareable
    else .nonShareable
  { memType := memType, shareability := shareability, outerCacheable := outer,
    innerCacheable := inner }

/-- The end of the walk at a block or page descriptor. -/
def finish (c : MmuConfig) (va : Word) (access : Access) (g : TranslationGranule)
    (e : PageTableEntry) (level : Nat) (fromTable : TableAttributes) :
    Except TranslationFault AddressDescriptor :=
  if !e.accessFlag then .error (stage1Fault .accessFlag level va)
  else do
    c.checkPermissions e access fromTable level va
    return { pa := computePa va e level g, attributes := c.decodeAttributes e,
             contiguous := e.contiguous, gp := e.gp }

/-- Read the entry of one level. -/
def fetch (memory : Word → Option Word) (va : Word) (g : TranslationGranule) (level : Nat)
    (tableAddr : Word) : Except TranslationFault PageTableEntry :=
  match memory (tableAddr + levelIndex va level g * 8) with
  | none => .error (stage1Fault .externalAbort level va)
  | some v =>
    let e : PageTableEntry := ⟨v⟩
    if !e.isValid then .error (stage1Fault .translation level va) else .ok e

/-- The loop of the walk with `n` levels below the current one: a table descriptor above level 3
is followed, anything else ends the walk. -/
def walkLoop (c : MmuConfig) (memory : Word → Option Word) (va : Word) (access : Access)
    (g : TranslationGranule) :
    Nat → Word → TableAttributes → Except TranslationFault AddressDescriptor
  | 0, tableAddr, fromTable => do
    let e ← fetch memory va g 3 tableAddr
    c.finish va access g e 3 fromTable
  | n + 1, tableAddr, fromTable => do
    let e ← fetch memory va g (3 - (n + 1)) tableAddr
    if e.isTable then
      walkLoop c memory va access g n (e.outputAddress g (3 - (n + 1))) (fromTable.accumulate e)
    else c.finish va access g e (3 - (n + 1)) fromTable

/-- The levels below the one the walk starts at. -/
def levelsBelow (g : TranslationGranule) (tsz : Nat) : Nat :=
  let levelsNeeded := (64 - tsz - g.pageOffsetBits + g.bitsPerLevel - 1) / g.bitsPerLevel
  let startLevel := 4 - levelsNeeded
  3 - startLevel

end MmuConfig

/-- Translate a virtual address. -/
def Mmu.translate (mmu : Mmu) (va : Word) (memory : Word → Option Word) (access : Access) :
    Except TranslationFault AddressDescriptor :=
  let c := mmu.config
  if !c.enabled then .ok { pa := va, attributes := {}, contiguous := false, gp := false }
  else do
    let (ttbr, tsz, g) ← c.selectTtbr va
    c.walkLoop memory va access g (MmuConfig.levelsBelow g tsz) (ttbr &&& 0x0000FFFFFFFFF000) {}

end Rax.Aarch64

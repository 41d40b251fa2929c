import Rax.Lib.Bytes

/-!
# The memory protection unit

Regions are programmed through registers that select a region and set its base, size or limit, and
permissions. An access is checked against the highest-numbered region that holds its address.

Arithmetic is that of a release build: sums wrap and shift amounts are reduced. The panics that
are left, a division by zero among them, are `none`. The memory attributes of RASR (TEX, S, C, B) are
kept to be read back; MAIR is left out.
-/

namespace Rax.CortexM

inductive MpuType
  | v6m | v7m8 | v7m16 | v8m8 | v8m16 | v7r12 | v7r16 | v8r
  deriving DecidableEq, Repr

namespace MpuType

def numRegions : MpuType → Nat
  | .v6m | .v7m8 | .v8m8 => 8
  | .v7m16 | .v8m16 | .v7r16 => 16
  | .v7r12 => 12
  | .v8r => 24

def isV8m : MpuType → Bool
  | .v8m8 | .v8m16 => true
  | _ => false

def isV8r : MpuType → Bool
  | .v8r => true
  | _ => false

end MpuType

inductive AccessType
  | instructionFetch | read | write | atomic
  deriving DecidableEq, Repr

/-! ## Permissions -/

structure AccessPermission where
  privRead : Bool
  privWrite : Bool
  unprivRead : Bool
  unprivWrite : Bool
  deriving DecidableEq, Repr

namespace AccessPermission

def none : AccessPermission := ⟨false, false, false, false⟩
def privRo : AccessPermission := ⟨true, false, false, false⟩
def privRw : AccessPermission := ⟨true, true, false, false⟩
def privRwUnprivRo : AccessPermission := ⟨true, true, true, false⟩
def fullAccess : AccessPermission := ⟨true, true, true, true⟩
def ro : AccessPermission := ⟨true, false, true, false⟩

def canRead (p : AccessPermission) (privileged : Bool) : Bool :=
  if privileged then p.privRead else p.unprivRead

def canWrite (p : AccessPermission) (privileged : Bool) : Bool :=
  if privileged then p.privWrite else p.unprivWrite

/-- The three-bit encoding; reserved values are no access and read-only. -/
def fromApBitsV7m (ap : BitVec 3) : AccessPermission :=
  match ap.toNat with
  | 1 => privRw
  | 2 => privRwUnprivRo
  | 3 => fullAccess
  | 5 => privRo
  | 6 | 7 => ro
  | _ => none

/-- The two-bit encoding in RBAR. -/
def fromApV8m (ap : BitVec 2) : AccessPermission :=
  match ap.toNat with
  | 0 => privRw
  | 1 => fullAccess
  | 2 => privRo
  | _ => ro

/-- The bits that RBAR is read with. -/
def toApV8m (p : AccessPermission) : BitVec 2 :=
  if p.privRead && p.privWrite && !p.unprivRead then 0
  else if p.privRead && p.privWrite && p.unprivRead && p.unprivWrite then 1
  else if p.privRead && !p.privWrite && !p.unprivRead then 2
  else if p.privRead && !p.privWrite && p.unprivRead then 3
  else 0

end AccessPermission

/-! ## Regions -/

structure MpuRegionAttr where
  xn : Bool := false
  ap : BitVec 3 := 0
  tex : BitVec 3 := 0
  s : Bool := false
  c : Bool := false
  b : Bool := false
  srd : Byte := 0
  deriving DecidableEq, Repr

def MpuRegionAttr.fromRasr (rasr : Reg) : MpuRegionAttr where
  xn := rasr.getLsbD 28
  ap := rasr.extractLsb' 24 3
  tex := rasr.extractLsb' 19 3
  s := rasr.getLsbD 18
  c := rasr.getLsbD 17
  b := rasr.getLsbD 16
  srd := rasr.extractLsb' 8 8

/-- A flag at its place in a register. -/
def flagAt (k : Nat) (b : Bool) : Reg := if b then 1#32 <<< k else 0

/-- RASR put together from the attributes, a SIZE field and the enable bit. -/
def MpuRegionAttr.toRasr (attr : MpuRegionAttr) (sizeBits : Byte) (enabled : Bool) : Reg :=
  flagAt 28 attr.xn ||| attr.ap.setWidth 32 <<< 24 ||| attr.tex.setWidth 32 <<< 19 |||
    flagAt 18 attr.s ||| flagAt 17 attr.c ||| flagAt 16 attr.b ||| attr.srd.setWidth 32 <<< 8 |||
    (sizeBits.setWidth 32 &&& 0x1F) <<< 1 ||| flagAt 0 enabled

def MpuRegionAttr.accessPermission (attr : MpuRegionAttr) : AccessPermission :=
  .fromApBitsV7m attr.ap

structure MpuRegion where
  base : Reg := 0
  size : Reg := 0
  limit : Reg := 0
  enabled : Bool := false
  attr : MpuRegionAttr := {}
  permissions : AccessPermission := .none
  xn : Bool := false
  pxn : Bool := false
  sh : BitVec 2 := 0
  attrIdx : BitVec 3 := 0
  deriving DecidableEq, Repr

namespace MpuRegion

def addrMask : Reg := 0xFFFFFFE0

def containsV7m (r : MpuRegion) (addr : Reg) : Bool :=
  if !r.enabled || r.size == 0 then false
  else decide (r.base ≤ addr) && decide (addr < r.base + r.size)

def containsV8m (r : MpuRegion) (addr : Reg) : Bool :=
  if !r.enabled then false else decide (r.base ≤ addr) && decide (addr ≤ r.limit)

/-- Regions of at least 256 bytes have eight subregions that can be disabled. -/
def isSubregionDisabled (r : MpuRegion) (addr : Reg) : Option Bool :=
  if decide (r.size < 256) || r.attr.srd == 0 then some false
  else
    let subregionSize := r.size / 8
    if subregionSize = 0 then none
    else
      let subregionNum : Byte := ((addr - r.base) / subregionSize).setWidth 8
      some (r.attr.srd.getLsbD (subregionNum.toNat % 8))

/-- A region of `2 ^ (SIZE + 1)` bytes; `1 << 32` is 1. -/
def sizeV7m (rasr : Reg) : Reg :=
  let sizeBits := (rasr.extractLsb' 1 5).toNat
  if 4 ≤ sizeBits then (1 : Reg) <<< ((sizeBits + 1) % 32) else 0

def configureV7m (r : MpuRegion) (rbar rasr : Reg) : MpuRegion :=
  { r with
    base := rbar &&& addrMask
    enabled := rasr.getLsbD 0
    size := sizeV7m rasr
    attr := .fromRasr rasr
    xn := (MpuRegionAttr.fromRasr rasr).xn }

def configureV8m (r : MpuRegion) (rbar rlar : Reg) : MpuRegion :=
  { r with
    base := rbar &&& addrMask
    sh := rbar.extractLsb' 3 2
    xn := rbar.getLsbD 0
    limit := rlar ||| 0x1F
    pxn := rlar.getLsbD 4
    attrIdx := rlar.extractLsb' 1 3
    enabled := rlar.getLsbD 0
    size := if rlar.getLsbD 0 then (rlar ||| 0x1F) - (rbar &&& addrMask) + 1 else r.size
    permissions := .fromApV8m (rbar.extractLsb' 1 2) }

/-- The base, without the region number. -/
def getRbarV7m (r : MpuRegion) : Reg := r.base &&& addrMask

/-- The SIZE field is taken from the highest set bit of the size. -/
def getRasrV7m (r : MpuRegion) : Reg :=
  r.attr.toRasr (if 0 < r.size then (31 - r.size.clz).setWidth 8 else 0) r.enabled

def getRbarV8m (r : MpuRegion) : Reg :=
  (r.base &&& addrMask) ||| r.sh.setWidth 32 <<< 3 ||| r.permissions.toApV8m.setWidth 32 <<< 1 |||
    (if r.xn then 1 else 0 : Reg)

def getRlarV8m (r : MpuRegion) : Reg :=
  (r.limit &&& addrMask) ||| (if r.pxn then (0x10 : Reg) else 0) ||| r.attrIdx.setWidth 32 <<< 1 |||
    (if r.enabled then 1 else 0 : Reg)

end MpuRegion

/-! ## The unit -/

structure Mpu where
  mpuType : MpuType
  enabled : Bool := false
  hfnmiena : Bool := false
  privdefena : Bool := false
  regions : List MpuRegion
  selectedRegion : Nat := 0
  deriving Repr

/-- The memory error of a denied access. -/
structure MpuFault where
  addr : Reg
  access : AccessType
  deriving DecidableEq, Repr

namespace Mpu

def new (mpuType : MpuType) : Mpu where
  mpuType := mpuType
  regions := List.replicate mpuType.numRegions {}

def setCtrl (m : Mpu) (value : Reg) : Mpu :=
  { m with
    enabled := value.getLsbD 0, hfnmiena := value.getLsbD 1, privdefena := value.getLsbD 2 }

/-- Select a region; a number that is too large is ignored. -/
def select (m : Mpu) (region : Nat) : Mpu :=
  if region < m.regions.length then { m with selectedRegion := region } else m

def setRnr (m : Mpu) (value : Reg) : Mpu := m.select (value.setWidth 8).toNat

/-- Change the selected region, if there is one. -/
def modifySelected (m : Mpu) (f : MpuRegion → MpuRegion) : Mpu :=
  { m with regions := m.regions.modify m.selectedRegion f }

/-- The VALID bit selects a region too. -/
def setRbarV7m (m : Mpu) (value : Reg) : Mpu :=
  let m := if value.getLsbD 4 then m.select (value.setWidth 4).toNat else m
  m.modifySelected fun r => { r with base := value &&& MpuRegion.addrMask }

def setRasrV7m (m : Mpu) (value : Reg) : Mpu :=
  m.modifySelected fun r => r.configureV7m r.base value

def setRbarV8m (m : Mpu) (value : Reg) : Mpu :=
  m.modifySelected fun r => r.configureV8m value r.getRlarV8m

def setRlarV8m (m : Mpu) (value : Reg) : Mpu :=
  m.modifySelected fun r => r.configureV8m r.getRbarV8m value

/-- Read a register of the selected region, zero if there is none. -/
def readSelected (m : Mpu) (f : MpuRegion → Reg) : Reg :=
  (m.regions[m.selectedRegion]?.map f).getD 0

def getRbarV7m (m : Mpu) : Reg := m.readSelected (·.getRbarV7m)

def getRasrV7m (m : Mpu) : Reg := m.readSelected (·.getRasrV7m)

def getRbarV8m (m : Mpu) : Reg := m.readSelected (·.getRbarV8m)

def getRlarV8m (m : Mpu) : Reg := m.readSelected (·.getRlarV8m)

/-- The first region that passes a test. -/
def findFirst (test : MpuRegion → Option Bool) : List MpuRegion → Option (Option MpuRegion)
  | [] => some none
  | r :: rs => do
    let found ← test r
    if found then return some r else findFirst test rs

def testV7m (addr : Reg) (r : MpuRegion) : Option Bool :=
  if r.containsV7m addr then (r.isSubregionDisabled addr).map (!·) else some false

/-- The highest-numbered region that holds an address. -/
def findRegion (m : Mpu) (addr : Reg) : Option (Option MpuRegion) :=
  if !m.enabled then some none
  else if m.mpuType.isV8m || m.mpuType.isV8r then
    findFirst (fun r => some (r.containsV8m addr)) m.regions.reverse
  else findFirst (testV7m addr) m.regions.reverse

/-- Whether a region permits an access, by the bits of either register format. -/
def permits (r : MpuRegion) (access : AccessType) (privileged : Bool) : Bool :=
  match access with
  | .instructionFetch =>
    if r.xn || (privileged && r.pxn) then false
    else r.attr.accessPermission.canRead privileged || r.permissions.canRead privileged
  | .read | .atomic =>
    r.attr.accessPermission.canRead privileged || r.permissions.canRead privileged
  | .write => r.attr.accessPermission.canWrite privileged || r.permissions.canWrite privileged

/-- Check the start address of an access; its size is not used. -/
def checkAccess (m : Mpu) (addr _size : Reg) (access : AccessType) (privileged : Bool) :
    Option (Except MpuFault Unit) :=
  if !m.enabled then some (.ok ())
  else do
    match ← m.findRegion addr with
    | some r =>
      if permits r access privileged then return .ok () else return .error ⟨addr, access⟩
    | none =>
      if m.privdefena && privileged then return .ok ()
      else return .error ⟨addr, access⟩

end Mpu

end Rax.CortexM

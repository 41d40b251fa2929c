import Rax.Lib.Bytes
import Rax.Devices.VirtQueue

/-!
# The virtio-mmio transport

Registers of the transport around a device with its queues, as whole words. The device itself is a
parameter, and so is the guest memory it works on.
-/

namespace Rax.Devices

/-- A device behind the transport, with its own state `δ` and guest memory `μ`. -/
structure VirtioDevice (δ μ : Type) where
  deviceId : δ → Reg
  deviceFeatures : δ → Word
  configRead : δ → Nat → Byte
  configWrite : δ → Nat → Byte → δ
  handleQueue : δ → Nat → VirtQueue → μ → δ × VirtQueue × μ

/-- The transport with `n + 1` queues. -/
@[ext]
structure VirtioMmio (n : Nat) (δ μ : Type) where
  base : Word
  device : δ
  mem : μ
  deviceFeaturesSel : Reg := 0
  driverFeaturesSel : Reg := 0
  driverFeatures : Word := 0
  queueSel : Reg := 0
  queues : Fin (n + 1) → VirtQueue := fun _ => {}
  status : Reg := 0
  interruptStatus : Reg := 0
  configGeneration : Reg := 0

inductive VirtioReg
  | magicValue | version | deviceId | vendorId | deviceFeatures | deviceFeaturesSel
  | driverFeatures | driverFeaturesSel | queueSel | queueNumMax | queueNum | queueReady
  | queueNotify | interruptStatus | interruptAck | status | queueDescLow | queueDescHigh
  | queueDriverLow | queueDriverHigh | queueDeviceLow | queueDeviceHigh | configGeneration
  deriving DecidableEq

namespace VirtioMmio

variable {n : Nat} {δ μ : Type} (dev : VirtioDevice δ μ)

def offeredFeatures (s : VirtioMmio n δ μ) : Word :=
  dev.deviceFeatures s.device ||| BitVec.twoPow 64 32

/-- The selector, clamped to the queues there are. -/
def selectedIndex (s : VirtioMmio n δ μ) : Fin (n + 1) :=
  ⟨min s.queueSel.toNat n, Nat.lt_succ_of_le (Nat.min_le_right _ n)⟩

def selectedQueue (s : VirtioMmio n δ μ) : VirtQueue := s.queues s.selectedIndex

def setSelectedQueue (s : VirtioMmio n δ μ) (q : VirtQueue) : VirtioMmio n δ μ :=
  { s with queues := Function.update s.queues s.selectedIndex q }

/-- A status write of zero. -/
def reset (s : VirtioMmio n δ μ) : VirtioMmio n δ μ :=
  { s with
    deviceFeaturesSel := 0, driverFeaturesSel := 0, driverFeatures := 0, queueSel := 0
    queues := fun _ => {}, status := 0, interruptStatus := 0 }

def readReg (s : VirtioMmio n δ μ) : Option VirtioReg → Reg
  | some .magicValue => 0x74726976
  | some .version => 2
  | some .deviceId => dev.deviceId s.device
  | some .vendorId => 0x554d4551
  | some .deviceFeatures =>
    if s.deviceFeaturesSel = 0 then (s.offeredFeatures dev).lowHalf
    else if s.deviceFeaturesSel = 1 then (s.offeredFeatures dev).highHalf
    else 0
  | some .queueNumMax => 256
  | some .queueReady => if s.selectedQueue.ready then 1 else 0
  | some .interruptStatus => s.interruptStatus
  | some .status => s.status
  | some .configGeneration => s.configGeneration
  | _ => 0

/-- Drive the device's handler for a queue; progress raises the used-buffer interrupt. -/
def notify (s : VirtioMmio n δ μ) (idx : Nat) : VirtioMmio n δ μ :=
  if h : idx < n + 1 then
    let (device, queue, mem) := dev.handleQueue s.device idx (s.queues ⟨idx, h⟩) s.mem
    let advanced := queue.lastAvailIdx != (s.queues ⟨idx, h⟩).lastAvailIdx
    { s with
      device := device, mem := mem, queues := Function.update s.queues ⟨idx, h⟩ queue
      interruptStatus := if advanced then s.interruptStatus ||| 1 else s.interruptStatus }
  else s

/-- A valid queue size: a power of two, at most 256. Anything else leaves the queue inert. -/
def queueSize (value : Reg) : Reg :=
  if Word.isPowerOfTwo (value.setWidth 64) = true ∧ value.toNat ≤ 256 then value else 0

def writeReg (s : VirtioMmio n δ μ) (value : Reg) : Option VirtioReg → VirtioMmio n δ μ
  | some .deviceFeaturesSel => { s with deviceFeaturesSel := value }
  | some .driverFeatures =>
    { s with driverFeatures :=
        if s.driverFeaturesSel = 0 then s.driverFeatures.withLow value
        else s.driverFeatures.withHigh value }
  | some .driverFeaturesSel => { s with driverFeaturesSel := value }
  | some .queueSel => { s with queueSel := value }
  | some .queueNum => s.setSelectedQueue { s.selectedQueue with size := queueSize value }
  | some .queueReady => s.setSelectedQueue { s.selectedQueue with ready := value.getLsbD 0 }
  | some .queueNotify => s.notify dev value.toNat
  | some .interruptAck => { s with interruptStatus := s.interruptStatus &&& ~~~value }
  | some .status => if value = 0 then s.reset else { s with status := value }
  | some .queueDescLow => s.setSelectedQueue
      { s.selectedQueue with descAddr := s.selectedQueue.descAddr.withLow value }
  | some .queueDescHigh => s.setSelectedQueue
      { s.selectedQueue with descAddr := s.selectedQueue.descAddr.withHigh value }
  | some .queueDriverLow => s.setSelectedQueue
      { s.selectedQueue with availAddr := s.selectedQueue.availAddr.withLow value }
  | some .queueDriverHigh => s.setSelectedQueue
      { s.selectedQueue with availAddr := s.selectedQueue.availAddr.withHigh value }
  | some .queueDeviceLow => s.setSelectedQueue
      { s.selectedQueue with usedAddr := s.selectedQueue.usedAddr.withLow value }
  | some .queueDeviceHigh => s.setSelectedQueue
      { s.selectedQueue with usedAddr := s.selectedQueue.usedAddr.withHigh value }
  | _ => s

end VirtioMmio

end Rax.Devices

import Rax.X86.Slices
import Rax.X86.Translate

/-!
# Routes

The route of an address is its translation by the tables alone, with the direct map behind them.
-/

namespace Rax.X86

/-- Answer a fault from the kernel direct map. -/
def directMap (memory : GuestMemory) (vaddr errorCode : Word) : Except Error Word :=
  if directMapBase ≤ vaddr ∧ vaddr ≤ directMapEnd ∧
      vaddr - directMapBase < memory.memorySize then
    .ok (vaddr - directMapBase)
  else .error (.pageFault vaddr errorCode)

/-- The physical address of a completed or failed walk. -/
def resolve (memory : GuestMemory) (vaddr : Word) : Except Error Leaf → Except Error Word
  | .ok leaf => .ok (leaf.phys vaddr)
  | .error (.pageFault vaddr errorCode) => directMap memory vaddr errorCode
  | .error e => .error e

/-- The translation by the tables alone. -/
def route (memory : GuestMemory) (vaddr : Word) (access : AccessType) (sregs : SystemRegisters) :
    Except Error Word :=
  if ¬ pagingEnabled sregs then .ok vaddr
  else if longMode sregs ∧ ¬ isCanonical vaddr then .error (.generalProtection 0)
  else if ¬ longMode sregs then .error (.emulator .longModeOnly)
  else resolve memory vaddr
    (walk memory sregs.cr3 vaddr (isUser sregs) (isWrite access))

section SamePage

variable {m : GuestMemory} {cr3 v w : Word} {isUser isWrite : Bool} {i : Nat}

end SamePage

end Rax.X86

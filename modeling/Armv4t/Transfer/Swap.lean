import Armv4t.Exec.Basic

/-!
# Swaps

The exchange of a register with a word or byte of memory: the read comes first, and the register is
written only when the memory has taken the new value.
-/

namespace Armv4t

/-- An exchange with memory. -/
structure Swap where
  /-- Whether a byte is exchanged rather than a word. -/
  byte : Bool
  base : Register
  /-- The register that receives the old value. -/
  destination : Register
  /-- The register that holds the new value. -/
  source : Register
deriving DecidableEq, Repr

namespace Swap

/-- Performs the memory side of a swap and yields the old value. -/
def exchange (byte : Bool) (address new : Word) : StepM Word := do
  if byte then
    let old ← StepM.read .byte address
    StepM.write .byte address (new.setWidth 8)
    return old.setWidth 32
  else
    let old ← StepM.read .word (Width.word.align address)
    StepM.write .word (Width.word.align address) new
    return old.rotateRight (Width.word.rotation address)

/-- Performs a swap. -/
def execute (swap : Swap) : StepM Flow := do
  let cpu ← get
  let old ← exchange swap.byte (cpu.read swap.base) (cpu.read swap.source)
  CpuM.charge 1
  CpuM.writeOrBranch swap.destination old

end Swap

end Armv4t

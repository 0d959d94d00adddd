import Armv4t.Exec.Basic
import Armv4t.Multiplier

/-!
# Multiplications

Products with and without accumulation, of one and of two result words.  A multiplication that sets
flags clears the carry and keeps the overflow flag.
-/

namespace Armv4t

/-- A multiplication with a result of one word. -/
structure Multiply where
  destination : Register
  multiplicand : Register
  /-- The operand that decides how long the multiplication takes. -/
  multiplier : Register
  /-- The register added to the product. -/
  addend : Option Register
  setFlags : Bool
deriving DecidableEq, Repr

namespace Multiply

/-- The low word of the product plus the addend. -/
def result (operation : Multiply) (cpu : Cpu) : Word :=
  let product := cpu.read operation.multiplicand * cpu.read operation.multiplier
  match operation.addend with
  | some addend => product + cpu.read addend
  | none => product

/-- The internal cycles of the multiplication. -/
def cycles (operation : Multiply) (cpu : Cpu) : Nat :=
  Multiplier.cycles (cpu.read operation.multiplier) true + operation.addend.isSome.toNat

/-- Performs a multiplication. -/
def execute (operation : Multiply) : CpuM Flow := do
  let cpu ← get
  let result := operation.result cpu
  CpuM.charge (operation.cycles cpu)
  CpuM.writeRegister operation.destination result
  if operation.setFlags then modify (·.withFlagsAfter ⟨result, some false, none⟩)
  return .next

end Multiply

/-- A multiplication with a result of two words. -/
structure LongMultiply where
  destinationHigh : Register
  destinationLow : Register
  multiplicand : Register
  /-- The operand that decides how long the multiplication takes. -/
  multiplier : Register
  signed : Bool
  /-- Whether the old value of the destination is added to the product. -/
  accumulate : Bool
  setFlags : Bool
deriving DecidableEq, Repr

namespace LongMultiply

/-- The product, plus the old destination in an accumulation. -/
def result (operation : LongMultiply) (cpu : Cpu) : BitVec 64 :=
  let product := Multiplier.product (cpu.read operation.multiplicand)
    (cpu.read operation.multiplier) operation.signed
  if operation.accumulate then
    product + (cpu.read operation.destinationHigh ++ cpu.read operation.destinationLow)
  else product

/-- The internal cycles of the multiplication. -/
def cycles (operation : LongMultiply) (cpu : Cpu) : Nat :=
  Multiplier.cycles (cpu.read operation.multiplier) operation.signed + 1 +
    operation.accumulate.toNat

/-- Performs a multiplication; the low word is written first. -/
def execute (operation : LongMultiply) : CpuM Flow := do
  let cpu ← get
  let result := operation.result cpu
  CpuM.charge (operation.cycles cpu)
  CpuM.writeRegister operation.destinationLow (result.extractLsb' 0 32)
  CpuM.writeRegister operation.destinationHigh (result.extractLsb' 32 32)
  if operation.setFlags then
    modify fun cpu => cpu.withFlags { cpu.cpsr.flags with
      negative := result.msb
      zero := result == 0
      carry := false }
  return .next

end LongMultiply

end Armv4t

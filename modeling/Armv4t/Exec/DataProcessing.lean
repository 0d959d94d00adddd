import Armv4t.Exec.Basic

/-!
# Data processing

The sixteen operations of the arithmetic and logic unit on a register and a shifter operand.  When
the shifter takes its amount from a register, one cycle more passes and the program counter has
moved on by another word before it is read.
-/

namespace Armv4t

/-- The operand that passes through the barrel shifter. -/
inductive ShifterOperand where
  /-- An eight-bit immediate, rotated right by twice the amount. -/
  | immediate (value : BitVec 8) (rotation : BitVec 4)
  /-- A register shifted by an immediate. -/
  | byImmediate (source : Register) (kind : ShiftKind) (amount : BitVec 5)
  /-- A register shifted by a register. -/
  | byRegister (source : Register) (kind : ShiftKind) (amount : Register)
deriving DecidableEq, Repr

namespace ShifterOperand

/-- Whether the amount of the shift comes from a register. -/
def isByRegister : ShifterOperand → Bool
  | byRegister .. => true
  | _ => false

/-- The value of a register operand beside this one. -/
def readBeside (operand : ShifterOperand) (cpu : Cpu) (register : Register) : Word :=
  if operand.isByRegister then cpu.readLate register else cpu.read register

/-- The output of the shifter. -/
def shifted (operand : ShifterOperand) (cpu : Cpu) : Shifted :=
  match operand with
  | immediate value rotation => rotatedImmediate value rotation
  | byImmediate source kind amount =>
    kind.byImmediate (cpu.read source) amount cpu.cpsr.flags.carry
  | byRegister source kind amount => kind.byRegister (cpu.readLate source) (cpu.readLate amount)

end ShifterOperand

/-- A data-processing instruction. -/
structure DataProcessing where
  operation : AluOperation
  setFlags : Bool
  destination : Register
  first : Register
  second : ShifterOperand
deriving DecidableEq, Repr

namespace DataProcessing

/-- The result of the operation on the register values of the processor. -/
def result (instruction : DataProcessing) (cpu : Cpu) : AluResult :=
  instruction.operation.evaluate (instruction.second.readBeside cpu instruction.first)
    (instruction.second.shifted cpu) cpu.cpsr.flags.carry

/-- Performs a data-processing instruction.  With the program counter as destination the flags are
not set from the result: instead the saved status is restored before the branch. -/
def execute (instruction : DataProcessing) : StepM Flow := do
  if instruction.second.isByRegister then CpuM.charge 1
  let result := instruction.result (← get)
  if instruction.operation.isTest then
    modify (·.withFlagsAfter result)
    return .next
  else if instruction.destination = .pc then
    if instruction.setFlags then StepM.restorePsr
    CpuM.branchTo result.value
  else
    modify (·.write instruction.destination result.value)
    if instruction.setFlags then modify (·.withFlagsAfter result)
    return .next

end DataProcessing

end Armv4t

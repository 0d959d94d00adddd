import Armv4t.Arm.Instruction
import Armv4t.Thumb.Instruction

/-!
# Steps

Executing one opcode, and fetching and executing the next.  An instruction that stops with a fault
does not move the program counter on; any other moves it to the following instruction unless it has
branched.
-/

namespace Armv4t

/-- Moves the program counter past an instruction of the given set, unless it has branched. -/
def proceed (set : InstructionSet) (flow : Flow) : CpuM Unit :=
  match flow with
  | .next => modify fun cpu => { cpu with pc := cpu.pc + set.size }
  | .jump => return ()

/-- Executes one ARM opcode as the instruction at the fetch address.  One cycle passes whether or
not its condition holds. -/
def executeArm (opcode : Word) : StepM Unit := do
  CpuM.charge 1
  let cpu ← get
  let condition := ArmInstruction.condition opcode
  if condition.holds cpu.cpsr.flags then
    CpuM.note (.executesArm cpu.fetchAddress opcode)
    match ArmInstruction.ofOpcode? opcode with
    | none => throw (.undefinedInstruction opcode cpu.fetchAddress cpu.instructionSet)
    | some instruction =>
      match instruction.refusal? with
      | some reason => throw (.unpredictableInstruction opcode cpu.fetchAddress reason)
      | none => proceed .arm (← instruction.execute)
  else
    CpuM.note (.skips cpu.fetchAddress opcode condition)
    proceed .arm .next

/-- Executes one Thumb opcode as the instruction at the fetch address. -/
def executeThumb (opcode : Halfword) : StepM Unit := do
  CpuM.charge 1
  let cpu ← get
  CpuM.note (.executesThumb cpu.fetchAddress opcode)
  match ThumbInstruction.ofOpcode? opcode with
  | none =>
    throw (.undefinedInstruction (opcode.setWidth 32) cpu.fetchAddress cpu.instructionSet)
  | some instruction =>
    match instruction.refusal? with
    | some reason =>
      throw (.unpredictableInstruction (opcode.setWidth 32) cpu.fetchAddress reason)
    | none => proceed .thumb (← instruction.execute)

/-- Fetches the next instruction over the bus and executes it. -/
def step : StepM Unit := do
  let cpu ← get
  match cpu.instructionSet with
  | .arm => executeArm (← StepM.read .word cpu.fetchAddress)
  | .thumb => executeThumb (← StepM.read .halfword cpu.fetchAddress)

end Armv4t

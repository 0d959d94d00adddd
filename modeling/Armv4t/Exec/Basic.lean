import Armv4t.Cpu.Basic
import Armv4t.Fault

/-!
# Execution

What an instruction does is a computation on the processor and its bus.  A `CpuM` computation cannot
fail; a `StepM` computation may stop with a fault and then leaves the processor as it was at that
point.  This module holds the effects that instructions are made of.
-/

namespace Armv4t

/-- Computations on a processor and its bus. -/
abbrev CpuM := StateT Cpu BusProgram

/-- Computations on a processor and its bus that may stop with a fault. -/
abbrev StepM := ExceptT Fault CpuM

/-- Runs a computation from a processor over a bus. -/
def StepM.runOn {σ α : Type} (bus : Bus σ) (action : StepM α) (cpu : Cpu) (state : σ) :
    BusRun σ (Except Fault α × Cpu) :=
  (action.run.run cpu).run bus state

/-- Where execution goes on after an instruction.

This takes the place of a flag `pipeline_flushed` in the processor's state.  Every execution of an
opcode would reset the flag before anything reads it, and only the end of the same execution would
read it, so the flag has nothing to carry from one instruction to another. -/
inductive Flow where
  /-- At the instruction that follows. -/
  | next
  /-- At an address to which the instruction has branched. -/
  | jump
deriving DecidableEq, Repr

namespace CpuM

/-- Puts a request to the bus. -/
def ask (request : BusRequest) : CpuM request.Answer :=
  fun cpu => .request request fun answer => .pure (answer, cpu)

/-- Notes a log record. -/
def note (record : LogRecord) : CpuM Unit :=
  fun cpu => .note record (.pure ((), cpu))

/-- Lets internal cycles pass. -/
def charge (cycles : Nat) : CpuM Unit :=
  ask (.charge cycles)

/-- Installs a status, exchanging register banks when the mode changes. -/
def installPsr (psr : Psr) : CpuM Unit := do
  let cpu ← get
  if cpu.mode ≠ psr.mode then note (.modeSwitch cpu.mode psr.mode)
  set (cpu.withPsr psr)

/-- Writes a register without a branch.  An address off the instruction boundary is reported when it
is written to the program counter. -/
def writeRegister (register : Register) (value : Word) : CpuM Unit := do
  let cpu ← get
  if register = .pc ∧ cpu.instructionSet.align value ≠ value then
    note (.unalignedPc cpu.instructionSet value)
  set (cpu.write register value)

/-- Continues at an address in the current instruction set: the pipeline is refilled from there, the
bus is told, and the refill takes two cycles. -/
def branchTo (address : Word) : CpuM Flow := do
  let cpu ← get
  let target := cpu.instructionSet.align address
  set { cpu with pc := target + cpu.instructionSet.lookahead }
  ask (.branch target cpu.instructionSet)
  charge 2
  return .jump

/-- Continues at an address in the instruction set that its lowest bit selects. -/
def branchExchange (address : Word) : CpuM Flow := do
  modify (·.withInstructionSet (if address.getLsbD 0 then .thumb else .arm))
  branchTo address

/-- Gives a register a value, which is a branch if the register is the program counter. -/
def writeOrBranch (register : Register) (value : Word) : CpuM Flow := do
  if register = .pc then
    branchTo value
  else
    modify (·.write register value)
    return .next

/-- Enters the handler of an exception, taken before the instruction at the fetch address completes:
the handler's mode keeps the old status and the return address, the ARM instruction set is selected
and interrupt requests are held back. -/
def raise (exception : Exception) : CpuM Unit := do
  let cpu ← get
  note (.exception exception cpu.fetchAddress)
  let returnAddress := cpu.fetchAddress + exception.returnOffset cpu.instructionSet
  installPsr { cpu.cpsr with
    mode := exception.mode
    instructionSet := .arm
    irqDisable := true
    fiqDisable := exception.disablesFiq || cpu.cpsr.fiqDisable }
  modify fun entered => (entered.write .lr returnAddress).withSpsr cpu.cpsr.toWord
  let _ ← branchTo exception.vector

/-- Whether requests on an interrupt line are held back. -/
def isMasked (line : InterruptLine) (psr : Psr) : Bool :=
  match line with
  | .irq => psr.irqDisable
  | .fiq => psr.fiqDisable

/-- Takes an interrupt unless it is held back, and tells whether it was taken. -/
def requestInterrupt (line : InterruptLine) : CpuM Bool := do
  if isMasked line (← get).cpsr then
    return false
  raise line.exception
  return true

end CpuM

namespace StepM

/-- Reads from the bus. -/
def read (width : Width) (address : Word) : StepM (BitVec width.bits) := do
  match ← CpuM.ask (.read width address) with
  | .ok value => return value
  | .error fault => throw (.bus fault)

/-- Writes to the bus. -/
def write (width : Width) (address : Word) (value : BitVec width.bits) : StepM Unit := do
  match ← CpuM.ask (.write width address value) with
  | .ok () => return ()
  | .error fault => throw (.bus fault)

/-- Installs the status that a word is the form of; a word that names no mode is a fault. -/
def installPsrWord (word : Word) : StepM Unit := do
  match Psr.ofWord? word with
  | some psr => CpuM.installPsr psr
  | none => throw (.invalidMode (Psr.modeField word))

/-- Restores the status from the saved one, if the mode has one. -/
def restorePsr : StepM Unit := do
  let cpu ← get
  match cpu.spsr? with
  | some word => installPsrWord word
  | none => CpuM.note (.nothingToRestore cpu.mode)

/-- Stops with the fault that `restorePsr` would stop with, and changes nothing otherwise. -/
def checkRestore : StepM Unit := do
  match (← get).spsr? with
  | some word => if (Psr.ofWord? word).isNone then throw (.invalidMode (Psr.modeField word))
  | none => return ()

end StepM

end Armv4t

import Armv4t.Condition
import Armv4t.Register
import Armv4t.Alu

/-!
# The register file

The registers of the current mode are held in a view, the registers of the other modes in stored
copies; `Cpu.withPsr` exchanges them when the mode changes.  The stored copy that belongs to the
current mode is out of date until then, and nothing reads it: `Cpu.readIn` takes the registers of
the current mode's bank from the view and those of any other bank from the stored copies.

A flag `pipeline_flushed` is left out of the state.  Every execution of an opcode resets it before
anything reads it, so its value between instructions cannot be observed; whether an instruction has
refilled the pipeline is the `Flow` that it yields (`Armv4t.Exec.Basic`).
-/

namespace Armv4t

/-- The two registers that every bank has of its own. -/
structure StackPair where
  sp : Word
  lr : Word
deriving DecidableEq, Repr

/-- The registers and the status of one processor. -/
structure Cpu where
  /-- R0 to R7. -/
  low : Vector Word 8
  /-- R8 to R12 of the current mode. -/
  high : Vector Word 5
  /-- Stack pointer and link register of the current mode. -/
  stack : StackPair
  /-- The program counter, two instructions ahead of the one being executed. -/
  pc : Word
  /-- The stored copy of R8 to R12 for every mode but FIQ. -/
  commonHigh : Vector Word 5
  /-- The stored copy of R8 to R12 for FIQ mode. -/
  fiqHigh : Vector Word 5
  /-- The stored copies of stack pointer and link register. -/
  bankedStacks : Banked StackPair
  /-- The saved status of each bank; that of the user bank is never used. -/
  spsrs : Banked Word
  /-- The current status. -/
  cpsr : Psr
deriving DecidableEq, Repr

namespace Cpu

/-! ### Status -/

/-- The current mode. -/
def mode (cpu : Cpu) : Mode :=
  cpu.cpsr.mode

/-- The instruction set in use. -/
def instructionSet (cpu : Cpu) : InstructionSet :=
  cpu.cpsr.instructionSet

/-- The address of the instruction being executed, or of the next one between instructions. -/
def fetchAddress (cpu : Cpu) : Word :=
  cpu.pc - cpu.instructionSet.lookahead

/-- The saved status of the current mode, if the mode has one. -/
def spsr? (cpu : Cpu) : Option Word :=
  if cpu.mode.bank = .user then none else some (cpu.spsrs.get cpu.mode.bank)

/-- Replaces the saved status of the current mode; without effect in a mode that has none. -/
def withSpsr (cpu : Cpu) (value : Word) : Cpu :=
  { cpu with
    spsrs := if cpu.mode.bank = .user then cpu.spsrs else cpu.spsrs.set cpu.mode.bank value }

/-- Replaces the condition flags. -/
def withFlags (cpu : Cpu) (flags : Flags) : Cpu :=
  { cpu with cpsr := { cpu.cpsr with flags := flags } }

/-- Replaces the condition flags by those after a result. -/
def withFlagsAfter (cpu : Cpu) (result : AluResult) : Cpu :=
  cpu.withFlags (cpu.cpsr.flags.after result)

/-- Replaces the instruction set in use. -/
def withInstructionSet (cpu : Cpu) (set : InstructionSet) : Cpu :=
  { cpu with cpsr := { cpu.cpsr with instructionSet := set } }

/-! ### Registers of the current mode -/

/-- The value of a register of the current mode. -/
def read (cpu : Cpu) : Register → Word
  | .low position => cpu.low.get position
  | .high position => cpu.high.get position
  | .sp => cpu.stack.sp
  | .lr => cpu.stack.lr
  | .pc => cpu.pc

/-- The value of a register at a point where the program counter reads one word further ahead. -/
def readLate (cpu : Cpu) (register : Register) : Word :=
  if register = .pc then cpu.pc + 4 else cpu.read register

/-- Writes a register of the current mode.  The program counter keeps to instruction boundaries and
is not refilled. -/
def write (cpu : Cpu) (register : Register) (value : Word) : Cpu :=
  match register with
  | .low position => { cpu with low := cpu.low.set position value }
  | .high position => { cpu with high := cpu.high.set position value }
  | .sp => { cpu with stack := { cpu.stack with sp := value } }
  | .lr => { cpu with stack := { cpu.stack with lr := value } }
  | .pc => { cpu with pc := cpu.instructionSet.align value }

/-! ### Registers of any mode -/

/-- R8 to R12 as a given mode sees them. -/
def highIn (cpu : Cpu) (mode : Mode) : Vector Word 5 :=
  if mode = .fiq ↔ cpu.mode = .fiq then cpu.high
  else if mode = .fiq then cpu.fiqHigh
  else cpu.commonHigh

/-- Stack pointer and link register as a given mode sees them. -/
def stackIn (cpu : Cpu) (mode : Mode) : StackPair :=
  if mode.bank = cpu.mode.bank then cpu.stack else cpu.bankedStacks.get mode.bank

/-- The value of a register as a given mode sees it. -/
def readIn (cpu : Cpu) (mode : Mode) : Register → Word
  | .low position => cpu.low.get position
  | .high position => (cpu.highIn mode).get position
  | .sp => (cpu.stackIn mode).sp
  | .lr => (cpu.stackIn mode).lr
  | .pc => cpu.pc

/-- Replaces R8 to R12 as a given mode sees them. -/
def withHighIn (cpu : Cpu) (mode : Mode) (values : Vector Word 5) : Cpu :=
  { cpu with
    high := if mode = .fiq ↔ cpu.mode = .fiq then values else cpu.high
    fiqHigh := if mode = .fiq ∧ cpu.mode ≠ .fiq then values else cpu.fiqHigh
    commonHigh := if mode ≠ .fiq ∧ cpu.mode = .fiq then values else cpu.commonHigh }

/-- Replaces stack pointer and link register as a given mode sees them. -/
def withStackIn (cpu : Cpu) (mode : Mode) (pair : StackPair) : Cpu :=
  { cpu with
    stack := if mode.bank = cpu.mode.bank then pair else cpu.stack
    bankedStacks :=
      if mode.bank = cpu.mode.bank then cpu.bankedStacks else cpu.bankedStacks.set mode.bank pair }

/-- Writes a register as a given mode sees it. -/
def writeIn (cpu : Cpu) (mode : Mode) (register : Register) (value : Word) : Cpu :=
  match register with
  | .high position => cpu.withHighIn mode ((cpu.highIn mode).set position value)
  | .sp => cpu.withStackIn mode { cpu.stackIn mode with sp := value }
  | .lr => cpu.withStackIn mode { cpu.stackIn mode with lr := value }
  | .low _ | .pc => cpu.write register value

/-! ### Changing the mode -/

/-- Stores the view into the copies of the current mode's bank. -/
def storeView (cpu : Cpu) : Cpu :=
  { cpu with
    fiqHigh := if cpu.mode = .fiq then cpu.high else cpu.fiqHigh
    commonHigh := if cpu.mode = .fiq then cpu.commonHigh else cpu.high
    bankedStacks := cpu.bankedStacks.set cpu.mode.bank cpu.stack }

/-- Loads the view from the copies of a mode's bank. -/
def loadView (cpu : Cpu) (mode : Mode) : Cpu :=
  { cpu with
    high := if mode = .fiq then cpu.fiqHigh else cpu.commonHigh
    stack := cpu.bankedStacks.get mode.bank }

/-- The processor with its view exchanged for that of a mode, if that mode sees another bank. -/
def exchangeView (cpu : Cpu) (mode : Mode) : Cpu :=
  if cpu.mode.bank = mode.bank then cpu else cpu.storeView.loadView mode

/-- Replaces the current status, with the view of the new mode. -/
def withPsr (cpu : Cpu) (psr : Psr) : Cpu :=
  { cpu.exchangeView psr.mode with cpsr := psr }

end Cpu

end Armv4t

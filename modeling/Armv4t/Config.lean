import Armv4t.Cpu.Basic
import Armv4t.Value

/-!
# Configurations

The state in which a processor powers up.  Every field of a configuration, and every stack pointer
in it, has a default, so that a written configuration may leave any of them out.
-/

namespace Armv4t

/-- The names of the banks as fields of a record. -/
def Bank.fieldNames : List String :=
  ["user", "fiq", "irq", "supervisor", "abort", "undefined"]

/-- The initial stack pointer of each bank. -/
abbrev StackPointers := Banked Word

namespace StackPointers

/-- The stack pointers of a processor whose stacks are not set up: all zero. -/
def zero : StackPointers := .replicate 0

/-- The written form of stack pointers. -/
def toValue (pointers : StackPointers) : Value :=
  .object (Bank.fieldNames.zip (pointers.toList.map .ofWord))

/-- Reads stack pointers; those not given are zero. -/
def ofValue? (value : Value) : Option StackPointers := do
  let fields ← value.fields? Bank.fieldNames
  let words ← fields.mapM (Value.orDefault 0 Value.word?)
  Banked.ofList? words

end StackPointers

/-- The state in which a processor powers up.  The defaults are those of a hardware reset. -/
structure Config where
  entryPoint : Word := 0
  mode : Mode := .supervisor
  instructionSet : InstructionSet := .arm
  irqDisabled : Bool := true
  fiqDisabled : Bool := true
  stackPointers : StackPointers := .zero
deriving DecidableEq, Repr

namespace Config

/-- The state after a hardware reset. -/
def default : Config := {}

/-- The state in which boot firmware leaves the processor when it starts a program at an address. -/
def directBoot (entryPoint : Word) : Config where
  entryPoint := entryPoint
  mode := .system
  irqDisabled := false
  fiqDisabled := false
  stackPointers :=
    { StackPointers.zero with user := 0x03007F00, irq := 0x03007FA0, supervisor := 0x03007FE0 }

/-- The fields of a written configuration. -/
def fieldNames : List String :=
  ["entry_point", "mode", "state", "irq_disabled", "fiq_disabled", "stack_pointers"]

/-- The written form of a configuration. -/
def toValue (config : Config) : Value :=
  .object (fieldNames.zip
    [.ofWord config.entryPoint, .string config.mode.name, .string config.instructionSet.name,
      .bool config.irqDisabled, .bool config.fiqDisabled, config.stackPointers.toValue])

/-- Reads a configuration; fields not given have their defaults. -/
def ofValue? (value : Value) : Option Config :=
  match value.fields? fieldNames with
  | some [entryPoint, mode, instructionSet, irqDisabled, fiqDisabled, stackPointers] => do
    return {
      entryPoint := ← Value.orDefault default.entryPoint Value.word? entryPoint
      mode := ← Value.orDefault default.mode (·.name?.bind Mode.ofName?) mode
      instructionSet :=
        ← Value.orDefault default.instructionSet (·.name?.bind InstructionSet.ofName?)
          instructionSet
      irqDisabled := ← Value.orDefault default.irqDisabled Value.bool? irqDisabled
      fiqDisabled := ← Value.orDefault default.fiqDisabled Value.bool? fiqDisabled
      stackPointers :=
        ← Value.orDefault default.stackPointers StackPointers.ofValue? stackPointers }
  | _ => none

/-- The status of a processor that powers up. -/
def psr (config : Config) : Psr where
  flags := ⟨false, false, false, false⟩
  reserved := 0
  irqDisable := config.irqDisabled
  fiqDisable := config.fiqDisabled
  instructionSet := config.instructionSet
  mode := config.mode

end Config

/-- The processor that a configuration powers up.  Its stack pointers lie in their banks and in the
view of the current mode, and its other registers are zero. -/
def Cpu.ofConfig (config : Config) : Cpu where
  low := .replicate 8 0
  high := .replicate 5 0
  stack := ⟨config.stackPointers.get config.mode.bank, 0⟩
  pc := config.instructionSet.align (config.entryPoint + config.instructionSet.lookahead)
  commonHigh := .replicate 5 0
  fiqHigh := .replicate 5 0
  bankedStacks := config.stackPointers.map (⟨·, 0⟩)
  spsrs := .replicate 0
  cpsr := config.psr

/-- The processor after a hardware reset. -/
def Cpu.reset : Cpu :=
  .ofConfig .default

end Armv4t

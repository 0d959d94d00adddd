import Armv4t.Arm.Text
import Armv4t.Thumb.Text

/-!
# Disassembly

The text of an opcode at an address, of the next instruction of a processor, and of the log records
that quote instructions.
-/

namespace Armv4t

/-- The text of an ARM opcode fetched from an address. -/
def disassembleArm (opcode address : Word) : String :=
  match ArmInstruction.ofOpcode? opcode with
  | some instruction => instruction.text (ArmInstruction.condition opcode) address
  | none => "undefined " ++ Numeral.address opcode.toNat

/-- The text of a Thumb opcode fetched from an address. -/
def disassembleThumb (opcode : Halfword) (address : Word) : String :=
  match ThumbInstruction.ofOpcode? opcode with
  | some instruction => instruction.text address
  | none => "undefined 0x" ++ Numeral.hex 4 opcode.toNat

/-- The target of a call made of two Thumb opcodes, if they are its two halves. -/
def callTarget? (first second : Halfword) (address : Word) : Option Word :=
  match ThumbInstruction.ofOpcode? first, ThumbInstruction.ofOpcode? second with
  | some (.callFirst high), some (.callSecond low) =>
    some (ThumbInstruction.callBase address high + ThumbInstruction.callLow low)
  | _, _ => none

/-- Whether a Thumb opcode is the first half of a call. -/
def isCallFirst (opcode : Halfword) : Bool :=
  match ThumbInstruction.ofOpcode? opcode with
  | some (.callFirst _) => true
  | _ => false

/-- Reads the next instruction of the processor over the bus and gives its text.  The two halves of
a Thumb call are read and written as one instruction. -/
def disassembleNext : StepM String := do
  let cpu ← get
  let address := cpu.fetchAddress
  match cpu.instructionSet with
  | .arm => return disassembleArm (← StepM.read .word address) address
  | .thumb =>
    let first ← StepM.read .halfword address
    if isCallFirst first then
      let second ← StepM.read .halfword (address + 2)
      match callTarget? first second address with
      | some target => return "bl " ++ Numeral.address target.toNat
      | none => return disassembleThumb first address
    else
      return disassembleThumb first address

/-- The wording of a log record. -/
def LogRecord.message : LogRecord → String
  | unalignedPc set value =>
    "writing to " ++ set.name ++ " PC with unaligned value: " ++ Numeral.address value.toNat ++
      ", force aligning"
  | nothingToRestore mode => "no SPSR to restore in " ++ mode.name ++ " mode"
  | noSavedStatus mode => "reading SPSR in " ++ mode.name ++ " mode, returning CPSR"
  | savedStatusIgnored mode => "ignoring MSR to SPSR in " ++ mode.name ++ " mode"
  | savedStatusDropped mode value =>
    "ignoring SPSR write of " ++ Numeral.address value.toNat ++ " in " ++ mode.name ++ " mode"
  | modeSwitch old new => "mode switch: " ++ old.name ++ " -> " ++ new.name
  | exception kind address =>
    "exception " ++ kind.name ++ " at " ++ Numeral.address address.toNat
  | executesArm address opcode =>
    Numeral.address address.toNat ++ ": " ++ Numeral.address opcode.toNat ++ " " ++
      disassembleArm opcode address
  | executesThumb address opcode =>
    Numeral.address address.toNat ++ ": 0x" ++ Numeral.hex 4 opcode.toNat ++ " " ++
      disassembleThumb opcode address
  | skips address opcode condition =>
    Numeral.address address.toNat ++ ": " ++ Numeral.address opcode.toNat ++ " skipped (" ++
      condition.text ++ ")"

end Armv4t

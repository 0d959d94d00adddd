import Armv4t.Cpu.Basic
import Armv4t.Numeral

/-!
# The status of a processor

A summary of a processor for a reader: its mode, instruction set, flags and masks, where it is, and
which conditions hold; and the register dump.
-/

namespace Armv4t

/-- A summary of a processor. -/
structure Status where
  mode : Mode
  instructionSet : InstructionSet
  flags : Flags
  irqDisable : Bool
  fiqDisable : Bool
  fetchAddress : Word
  /-- The size of an instruction in bytes. -/
  instructionSize : Nat
  /-- The program counter as a store sees it. -/
  latePc : Word
  /-- Whether each condition holds, in the order of their codes. -/
  conditions : List Bool
deriving DecidableEq, Repr

namespace Cpu

/-- The summary of a processor. -/
def status (cpu : Cpu) : Status where
  mode := cpu.mode
  instructionSet := cpu.instructionSet
  flags := cpu.cpsr.flags
  irqDisable := cpu.cpsr.irqDisable
  fiqDisable := cpu.cpsr.fiqDisable
  fetchAddress := cpu.fetchAddress
  instructionSize := cpu.instructionSet.width.bytes
  latePc := cpu.readLate .pc
  conditions := Condition.all.map (·.holds cpu.cpsr.flags)

/-- A register in the dump: its name in four columns and its value. -/
def dumpRegister (cpu : Cpu) (register : Register) : String :=
  let name := register.text
  String.ofList (List.replicate (4 - name.length) ' ') ++ name ++ ": 0x" ++
    Numeral.hexLower 8 (cpu.read register).toNat ++ " "

/-- A line of four registers in the dump, from a given one on. -/
def dumpLine (cpu : Cpu) (start : Nat) : String :=
  String.join (((Register.all.drop start).take 4).map cpu.dumpRegister) ++ "\n"

/-- The register dump: four lines of four registers, then the status. -/
def dump (cpu : Cpu) : String :=
  cpu.dumpLine 0 ++ cpu.dumpLine 4 ++ cpu.dumpLine 8 ++ cpu.dumpLine 12 ++
    "cpsr: 0x" ++ Numeral.hexLower 8 cpu.cpsr.toWord.toNat ++ " (" ++ cpu.mode.name ++ ", " ++
    cpu.instructionSet.name ++ ")"

end Cpu

end Armv4t

import Armv4t.Bus.Program
import Armv4t.Numeral

/-!
# Faults

The ways in which executing an instruction can stop short, as causes with their wording.
-/

namespace Armv4t

/-- A reason for which the architecture leaves an instruction's effect open. -/
inductive Unpredictable where
  | emptyRegisterList
  | writeBackToPc
deriving DecidableEq, Repr

/-- The wording of the reason. -/
def Unpredictable.text : Unpredictable → String
  | emptyRegisterList => "empty register list"
  | writeBackToPc => "write-back to the program counter"

/-- Why an instruction, or the fetch of one, stopped short. -/
inductive Fault where
  /-- The opcode is no instruction. -/
  | undefinedInstruction (opcode address : Word) (set : InstructionSet)
  /-- The instruction has no defined effect. -/
  | unpredictableInstruction (opcode address : Word) (reason : Unpredictable)
  /-- A status to be installed names no mode. -/
  | invalidMode (field : BitVec 5)
  /-- The bus failed an access. -/
  | bus (fault : BusFault)
deriving DecidableEq, Repr

/-- The wording of a fault. -/
def Fault.message : Fault → String
  | undefinedInstruction opcode address set =>
    "undefined " ++ set.name ++ " instruction " ++ Numeral.address opcode.toNat ++ " at " ++
      Numeral.address address.toNat
  | unpredictableInstruction opcode address reason =>
    "unpredictable instruction " ++ Numeral.address opcode.toNat ++ " at " ++
      Numeral.address address.toNat ++ ": " ++ reason.text
  | invalidMode field => "invalid processor mode bits 0b" ++ Numeral.binary 5 field.toNat
  | bus fault => fault.message

end Armv4t

import Armv4t.Arm.Instruction
import Armv4t.Assembly

/-!
# The text of ARM instructions

One line of assembly language per instruction.  Branch targets are absolute, computed from the
address the instruction was fetched from.
-/

namespace Armv4t

/-- The mark of an instruction that sets flags. -/
def flagMark (setFlags : Bool) : String :=
  if setFlags then "s" else ""

/-- The operand that passes through the shifter. -/
def ShifterOperand.text : ShifterOperand → String
  | immediate value rotation => Numeral.immediate (rotatedImmediate value rotation).value.toNat
  | byImmediate source kind amount => source.text ++ Assembly.immediateShift kind amount
  | byRegister source kind amount => source.text ++ ", " ++ kind.text ++ " " ++ amount.text

/-- A data-processing instruction.  Tests have no destination and moves no first operand. -/
def DataProcessing.text (instruction : DataProcessing) (condition : Condition) : String :=
  let operation := instruction.operation
  operation.text ++ flagMark (instruction.setFlags && !operation.isTest) ++ condition.text ++ " " ++
    (if operation.isTest then "" else instruction.destination.text ++ ", ") ++
    (if operation.isMove then "" else instruction.first.text ++ ", ") ++
    instruction.second.text

/-- The name of a status register. -/
def statusName (saved : Bool) : String :=
  if saved then "spsr" else "cpsr"

/-- The letters of the chosen fields, highest first. -/
def StatusWrite.fieldLetters (write : StatusWrite) : String :=
  (if write.fields.getLsbD 3 then "f" else "") ++ (if write.fields.getLsbD 2 then "s" else "") ++
    (if write.fields.getLsbD 1 then "x" else "") ++ (if write.fields.getLsbD 0 then "c" else "")

/-- The value of a status write. -/
def StatusSource.text : StatusSource → String
  | immediate value rotation => Numeral.immediate (rotatedImmediate value rotation).value.toNat
  | register source => source.text

/-- A status write. -/
def StatusWrite.text (write : StatusWrite) (condition : Condition) : String :=
  "msr" ++ condition.text ++ " " ++ statusName write.saved ++
    (if write.fields = 0 then "" else "_" ++ write.fieldLetters) ++ ", " ++ write.source.text

/-- A multiplication. -/
def Multiply.text (operation : Multiply) (condition : Condition) : String :=
  (if operation.addend.isSome then "mla" else "mul") ++ flagMark operation.setFlags ++
    condition.text ++ " " ++ operation.destination.text ++ ", " ++ operation.multiplicand.text ++
    ", " ++ operation.multiplier.text ++
    (match operation.addend with
      | some addend => ", " ++ addend.text
      | none => "")

/-- A long multiplication. -/
def LongMultiply.text (operation : LongMultiply) (condition : Condition) : String :=
  (if operation.signed then "s" else "u") ++ (if operation.accumulate then "mlal" else "mull") ++
    flagMark operation.setFlags ++ condition.text ++ " " ++ operation.destinationLow.text ++ ", " ++
    operation.destinationHigh.text ++ ", " ++ operation.multiplicand.text ++ ", " ++
    operation.multiplier.text

/-- A swap. -/
def Swap.text (operation : Swap) (condition : Condition) : String :=
  "swp" ++ (if operation.byte then "b" else "") ++ condition.text ++ " " ++
    operation.destination.text ++ ", " ++ operation.source.text ++ ", [" ++ operation.base.text ++
    "]"

/-- An offset, or nothing for an immediate offset of zero. -/
def Offset.text? (offset : Offset) (up : Bool) : Option String :=
  match offset with
  | immediate value => if value = 0 then none else some (Numeral.signedImmediate up value.toNat)
  | register source kind amount =>
    some ((if up then "" else "-") ++ source.text ++ Assembly.immediateShift kind amount)

/-- The address of a single transfer. -/
def SingleTransfer.addressText (transfer : SingleTransfer) : String :=
  let base := transfer.base.text
  match transfer.indexing, transfer.offset.text? transfer.up with
  | .pre writeBack, none => "[" ++ base ++ "]" ++ (if writeBack then "!" else "")
  | .pre writeBack, some offset =>
    "[" ++ base ++ ", " ++ offset ++ "]" ++ (if writeBack then "!" else "")
  | .post _, none => "[" ++ base ++ "], #0"
  | .post _, some offset => "[" ++ base ++ "], " ++ offset

/-- The mark of a transfer with the memory protection of User mode. -/
def Indexing.unprivilegedMark : Indexing → String
  | post true => "t"
  | _ => ""

/-- A single transfer. -/
def SingleTransfer.text (transfer : SingleTransfer) (condition : Condition) : String :=
  transfer.access.text ++ transfer.indexing.unprivilegedMark ++ condition.text ++ " " ++
    transfer.data.text ++ ", " ++ transfer.addressText

/-- The letters of an addressing mode: increment or decrement, after or before. -/
def BlockTransfer.modeText (transfer : BlockTransfer) : String :=
  (if transfer.up then "i" else "d") ++ (if transfer.pre then "b" else "a")

/-- A block transfer. -/
def BlockTransfer.text (transfer : BlockTransfer) (condition : Condition) : String :=
  (if transfer.load then "ldm" else "stm") ++ transfer.modeText ++ condition.text ++ " " ++
    transfer.base.text ++ (if transfer.writeBack then "!" else "") ++ ", " ++
    Assembly.registerList transfer.registers ++ (if transfer.mark then "^" else "")

/-- The target of a branch fetched from an address. -/
def ArmInstruction.branchTarget (address : Word) (offset : BitVec 24) : Word :=
  address + 8 + branchDistance offset

/-- The line of assembly language for an instruction fetched from an address. -/
def ArmInstruction.text (instruction : ArmInstruction) (condition : Condition) (address : Word) :
    String :=
  match instruction with
  | dataProcessing instruction => instruction.text condition
  | readStatus saved destination =>
    "mrs" ++ condition.text ++ " " ++ destination.text ++ ", " ++ statusName saved
  | writeStatus write => write.text condition
  | multiply operation => operation.text condition
  | multiplyLong operation => operation.text condition
  | swap operation => operation.text condition
  | branchExchange target => "bx" ++ condition.text ++ " " ++ target.text
  | singleTransfer transfer => transfer.text condition
  | blockTransfer transfer => transfer.text condition
  | branch link offset =>
    "b" ++ (if link then "l" else "") ++ condition.text ++ " " ++
      Numeral.address (branchTarget address offset).toNat
  | softwareInterrupt comment => "swi" ++ condition.text ++ " " ++ Numeral.immediate comment.toNat

end Armv4t

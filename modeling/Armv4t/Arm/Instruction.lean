import Armv4t.Arm.Kind
import Armv4t.Exec.DataProcessing
import Armv4t.Exec.Multiply
import Armv4t.Exec.Status
import Armv4t.Transfer.Block
import Armv4t.Transfer.Single
import Armv4t.Transfer.Swap

/-!
# ARM instructions

What an ARM opcode says apart from its condition, which sits in bits 31 to 28 of every opcode.
-/

namespace Armv4t

/-- An ARM instruction without its condition. -/
inductive ArmInstruction where
  | dataProcessing (instruction : DataProcessing)
  | readStatus (saved : Bool) (destination : Register)
  | writeStatus (write : StatusWrite)
  | multiply (operation : Multiply)
  | multiplyLong (operation : LongMultiply)
  | swap (operation : Swap)
  | branchExchange (target : Register)
  | singleTransfer (transfer : SingleTransfer)
  | blockTransfer (transfer : BlockTransfer)
  | branch (link : Bool) (offset : BitVec 24)
  | softwareInterrupt (comment : BitVec 24)
deriving DecidableEq, Repr

namespace ArmInstruction

/-- The condition of an opcode. -/
def condition (opcode : Word) : Condition :=
  .ofField (opcode.extractLsb' 28 4)

/-! ### Fields of an opcode -/

/-- The register named by the four bits from `start` on. -/
def registerAt (opcode : Word) (start : Nat) : Register :=
  .ofField (opcode.extractLsb' start 4)

/-- The kind of shift in bits 6 and 5. -/
def shiftKind (opcode : Word) : ShiftKind :=
  .ofField (opcode.extractLsb' 5 2)

/-- The amount of an immediate shift. -/
def shiftAmount (opcode : Word) : BitVec 5 :=
  opcode.extractLsb' 7 5

/-- The shifter operand of a data-processing opcode. -/
def shifterOperand (opcode : Word) : ShifterOperand :=
  if opcode.getLsbD 25 then .immediate (opcode.extractLsb' 0 8) (opcode.extractLsb' 8 4)
  else if opcode.getLsbD 4 then
    .byRegister (registerAt opcode 0) (shiftKind opcode) (registerAt opcode 8)
  else .byImmediate (registerAt opcode 0) (shiftKind opcode) (shiftAmount opcode)

/-- The indexing of a transfer; only the plain transfers can be marked as unprivileged. -/
def indexing (opcode : Word) (mayBeUnprivileged : Bool) : Indexing :=
  if opcode.getLsbD 24 then .pre (opcode.getLsbD 21)
  else .post (mayBeUnprivileged && opcode.getLsbD 21)

/-! ### Opcodes of each kind -/

/-- A data-processing instruction from its opcode. -/
def ofDataProcessing (opcode : Word) : DataProcessing where
  operation := .ofField (opcode.extractLsb' 21 4)
  setFlags := opcode.getLsbD 20
  destination := registerAt opcode 12
  first := registerAt opcode 16
  second := shifterOperand opcode

/-- A status write from its opcode. -/
def ofStatusWrite (opcode : Word) : StatusWrite where
  saved := opcode.getLsbD 22
  fields := opcode.extractLsb' 16 4
  source :=
    if opcode.getLsbD 25 then .immediate (opcode.extractLsb' 0 8) (opcode.extractLsb' 8 4)
    else .register (registerAt opcode 0)

/-- A multiplication from its opcode. -/
def ofMultiply (opcode : Word) : Multiply where
  destination := registerAt opcode 16
  multiplicand := registerAt opcode 0
  multiplier := registerAt opcode 8
  addend := if opcode.getLsbD 21 then some (registerAt opcode 12) else none
  setFlags := opcode.getLsbD 20

/-- A long multiplication from its opcode. -/
def ofMultiplyLong (opcode : Word) : LongMultiply where
  destinationHigh := registerAt opcode 16
  destinationLow := registerAt opcode 12
  multiplicand := registerAt opcode 0
  multiplier := registerAt opcode 8
  signed := opcode.getLsbD 22
  accumulate := opcode.getLsbD 21
  setFlags := opcode.getLsbD 20

/-- A swap from its opcode. -/
def ofSwap (opcode : Word) : Swap where
  byte := opcode.getLsbD 22
  base := registerAt opcode 16
  destination := registerAt opcode 12
  source := registerAt opcode 0

/-- A transfer of a word or an unsigned byte from its opcode. -/
def ofSingleTransfer (opcode : Word) : SingleTransfer where
  access := if opcode.getLsbD 22 then .ofByte (opcode.getLsbD 20) else .ofWord (opcode.getLsbD 20)
  data := registerAt opcode 12
  base := registerAt opcode 16
  offset :=
    if opcode.getLsbD 25 then
      .register (registerAt opcode 0) (shiftKind opcode) (shiftAmount opcode)
    else .immediate (opcode.extractLsb' 0 12)
  up := opcode.getLsbD 23
  indexing := indexing opcode true

/-- The access of a halfword or signed transfer; only loads can be signed. -/
def halfwordAccess (opcode : Word) : Access :=
  match opcode.getLsbD 20, opcode.getLsbD 6, opcode.getLsbD 5 with
  | true, true, false => .load .signedByte
  | true, true, true => .load .signedHalfword
  | load, _, _ => .ofHalfword load

/-- A halfword or signed transfer from its opcode. -/
def ofHalfwordTransfer (opcode : Word) : SingleTransfer where
  access := halfwordAccess opcode
  data := registerAt opcode 12
  base := registerAt opcode 16
  offset :=
    if opcode.getLsbD 22 then
      .immediate ((opcode.extractLsb' 8 4 ++ opcode.extractLsb' 0 4 : BitVec 8).setWidth 12)
    else .register (registerAt opcode 0) .lsl 0
  up := opcode.getLsbD 23
  indexing := indexing opcode false

/-- A block transfer from its opcode. -/
def ofBlockTransfer (opcode : Word) : BlockTransfer where
  load := opcode.getLsbD 20
  base := registerAt opcode 16
  list := opcode.extractLsb' 0 16
  up := opcode.getLsbD 23
  pre := opcode.getLsbD 24
  writeBack := opcode.getLsbD 21
  mark := opcode.getLsbD 22

/-- The instruction of an opcode, unless the opcode is undefined. -/
def ofOpcode? (opcode : Word) : Option ArmInstruction :=
  match ArmKind.ofOpcode opcode with
  | .dataProcessing => some (.dataProcessing (ofDataProcessing opcode))
  | .readStatus => some (.readStatus (opcode.getLsbD 22) (registerAt opcode 12))
  | .writeStatus => some (.writeStatus (ofStatusWrite opcode))
  | .multiply => some (.multiply (ofMultiply opcode))
  | .multiplyLong => some (.multiplyLong (ofMultiplyLong opcode))
  | .swap => some (.swap (ofSwap opcode))
  | .branchExchange => some (.branchExchange (registerAt opcode 0))
  | .halfwordTransfer => some (.singleTransfer (ofHalfwordTransfer opcode))
  | .singleTransfer => some (.singleTransfer (ofSingleTransfer opcode))
  | .blockTransfer => some (.blockTransfer (ofBlockTransfer opcode))
  | .branch => some (.branch (opcode.getLsbD 24) (opcode.extractLsb' 0 24))
  | .softwareInterrupt => some (.softwareInterrupt (opcode.extractLsb' 0 24))
  | .undefined => none

/-! ### Meaning -/

/-- The distance of a branch from the program counter. -/
def branchDistance (offset : BitVec 24) : Word :=
  (offset ++ 0#2).signExtend 32

/-- The reason for which an instruction is refused, if it is. -/
def refusal? : ArmInstruction → Option Unpredictable
  | singleTransfer transfer => transfer.refusal?
  | blockTransfer transfer => transfer.refusal?
  | _ => none

/-- Performs a branch; with a link, the link register gets the address of the next instruction. -/
def executeBranch (link : Bool) (offset : BitVec 24) : CpuM Flow := do
  let pc := (← get).pc
  if link then modify (·.write .lr (pc - 4))
  CpuM.branchTo (pc + branchDistance offset)

/-- Performs an instruction that is not refused. -/
def execute : ArmInstruction → StepM Flow
  | dataProcessing instruction => instruction.execute
  | readStatus saved destination => Armv4t.readStatus saved destination
  | writeStatus write => write.execute
  | multiply operation => operation.execute
  | multiplyLong operation => operation.execute
  | swap operation => operation.execute
  | branchExchange target => do CpuM.branchExchange ((← get).read target)
  | singleTransfer transfer => transfer.execute
  | blockTransfer transfer => transfer.execute
  | branch link offset => executeBranch link offset
  | softwareInterrupt _ => do
    CpuM.raise .softwareInterrupt
    return .jump

end ArmInstruction

end Armv4t

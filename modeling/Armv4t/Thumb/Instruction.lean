import Armv4t.Thumb.Kind
import Armv4t.Exec.Multiply
import Armv4t.Transfer.Block
import Armv4t.Transfer.Single

/-!
# Thumb instructions

What a Thumb opcode says.  Most formats name low registers only; the type of the operands keeps the
others out.
-/

namespace Armv4t

/-- The second operand of an addition or subtraction. -/
inductive SmallOperand where
  | register (source : LowRegister)
  | immediate (value : BitVec 3)
deriving DecidableEq, Repr

/-- The operations between a register and an eight-bit immediate. -/
inductive ImmediateOperation where
  | move
  | compare
  | add
  | subtract
deriving DecidableEq, Repr

/-- The operation of the arithmetic unit behind an immediate format. -/
def ImmediateOperation.alu : ImmediateOperation → AluOperation
  | move => .mov
  | compare => .cmp
  | add => .add
  | subtract => .sub

/-- The operations between two low registers. -/
inductive RegisterOperation where
  /-- An operation that exists for ARM instructions too. -/
  | process (operation : AluOperation)
  /-- A shift of the destination by the source. -/
  | shift (kind : ShiftKind)
  | negate
  | multiply
deriving DecidableEq, Repr

/-- The operations between any two registers. -/
inductive HighOperation where
  | add
  | compare
  | move
  /-- A branch to the source. -/
  | exchange
deriving DecidableEq, Repr

/-- A Thumb instruction. -/
inductive ThumbInstruction where
  | shiftedMove (kind : ShiftKind) (amount : BitVec 5) (source destination : LowRegister)
  | addSubtract (subtract : Bool) (operand : SmallOperand) (source destination : LowRegister)
  | immediate (operation : ImmediateOperation) (destination : LowRegister) (value : BitVec 8)
  | alu (operation : RegisterOperation) (source destination : LowRegister)
  | highRegister (operation : HighOperation) (source destination : Register)
  | pcRelativeLoad (data : LowRegister) (offset : BitVec 8)
  | registerOffset (access : Access) (data base offset : LowRegister)
  /-- The offset counts units of the access width. -/
  | immediateOffset (width : Width) (load : Bool) (data base : LowRegister) (offset : BitVec 5)
  | spRelative (load : Bool) (data : LowRegister) (offset : BitVec 8)
  | loadAddress (fromSp : Bool) (destination : LowRegister) (offset : BitVec 8)
  | adjustStack (subtract : Bool) (amount : BitVec 7)
  /-- A push of low registers, with the link register if `extra`. -/
  | push (extra : Bool) (list : BitVec 8)
  /-- A pop of low registers, with the program counter if `extra`. -/
  | pop (extra : Bool) (list : BitVec 8)
  | multiple (load : Bool) (base : LowRegister) (list : BitVec 8)
  | conditionalBranch (condition : Condition) (offset : BitVec 8)
  | softwareInterrupt (comment : BitVec 8)
  | branch (offset : BitVec 11)
  /-- The first half of a call, which keeps the high part of the distance in the link register. -/
  | callFirst (offset : BitVec 11)
  /-- The second half of a call, which adds the low part and branches. -/
  | callSecond (offset : BitVec 11)
deriving DecidableEq, Repr

namespace ThumbInstruction

/-! ### Fields of an opcode -/

/-- The low register named by the three bits from `start` on. -/
def lowAt (opcode : Halfword) (start : Nat) : LowRegister :=
  (opcode.extractLsb' start 3).toFin

/-- The register named by three bits and a fourth elsewhere. -/
def registerAt (opcode : Halfword) (start : Nat) (top : Bool) : Register :=
  .ofField (BitVec.ofBool top ++ opcode.extractLsb' start 3)

/-- The operation of an immediate format from its code. -/
def immediateOperation (code : BitVec 2) : ImmediateOperation :=
  match code.toNat with
  | 0 => .move
  | 1 => .compare
  | 2 => .add
  | _ => .subtract

/-- The operation of a register format from its code. -/
def registerOperation (code : BitVec 4) : RegisterOperation :=
  match code.toNat with
  | 0x0 => .process .and
  | 0x1 => .process .eor
  | 0x2 => .shift .lsl
  | 0x3 => .shift .lsr
  | 0x4 => .shift .asr
  | 0x5 => .process .adc
  | 0x6 => .process .sbc
  | 0x7 => .shift .ror
  | 0x8 => .process .tst
  | 0x9 => .negate
  | 0xA => .process .cmp
  | 0xB => .process .cmn
  | 0xC => .process .orr
  | 0xD => .multiply
  | 0xE => .process .bic
  | _ => .process .mvn

/-- The operation of a high-register format from its code. -/
def highOperation (code : BitVec 2) : HighOperation :=
  match code.toNat with
  | 0 => .add
  | 1 => .compare
  | 2 => .move
  | _ => .exchange

/-- The access of a sign-extended format from its two bits for halfword and sign. -/
def signExtendedAccess (half sign : Bool) : Access :=
  match half, sign with
  | false, false => .store .halfword
  | true, false => .load .halfword
  | false, true => .load .signedByte
  | true, true => .load .signedHalfword

/-- The instruction of an opcode, unless the opcode is undefined. -/
def ofOpcode? (opcode : Halfword) : Option ThumbInstruction :=
  match ThumbKind.ofOpcode opcode with
  | .shiftedMove =>
    some (.shiftedMove (.ofField (opcode.extractLsb' 11 2)) (opcode.extractLsb' 6 5)
      (lowAt opcode 3) (lowAt opcode 0))
  | .addSubtract =>
    some (.addSubtract (opcode.getLsbD 9)
      (if opcode.getLsbD 10 then .immediate (opcode.extractLsb' 6 3)
        else .register (lowAt opcode 6))
      (lowAt opcode 3) (lowAt opcode 0))
  | .immediate =>
    some (.immediate (immediateOperation (opcode.extractLsb' 11 2)) (lowAt opcode 8)
      (opcode.extractLsb' 0 8))
  | .alu =>
    some (.alu (registerOperation (opcode.extractLsb' 6 4)) (lowAt opcode 3) (lowAt opcode 0))
  | .highRegister =>
    some (.highRegister (highOperation (opcode.extractLsb' 8 2))
      (registerAt opcode 3 (opcode.getLsbD 6)) (registerAt opcode 0 (opcode.getLsbD 7)))
  | .pcRelativeLoad => some (.pcRelativeLoad (lowAt opcode 8) (opcode.extractLsb' 0 8))
  | .registerOffset =>
    some (.registerOffset
      (if opcode.getLsbD 10 then .ofByte (opcode.getLsbD 11) else .ofWord (opcode.getLsbD 11))
      (lowAt opcode 0) (lowAt opcode 3) (lowAt opcode 6))
  | .signExtended =>
    some (.registerOffset (signExtendedAccess (opcode.getLsbD 11) (opcode.getLsbD 10))
      (lowAt opcode 0) (lowAt opcode 3) (lowAt opcode 6))
  | .immediateOffset =>
    some (.immediateOffset (if opcode.getLsbD 12 then .byte else .word) (opcode.getLsbD 11)
      (lowAt opcode 0) (lowAt opcode 3) (opcode.extractLsb' 6 5))
  | .halfword =>
    some (.immediateOffset .halfword (opcode.getLsbD 11)
      (lowAt opcode 0) (lowAt opcode 3) (opcode.extractLsb' 6 5))
  | .spRelative => some (.spRelative (opcode.getLsbD 11) (lowAt opcode 8) (opcode.extractLsb' 0 8))
  | .loadAddress =>
    some (.loadAddress (opcode.getLsbD 11) (lowAt opcode 8) (opcode.extractLsb' 0 8))
  | .adjustStack => some (.adjustStack (opcode.getLsbD 7) (opcode.extractLsb' 0 7))
  | .pushPop =>
    if opcode.getLsbD 11 then some (.pop (opcode.getLsbD 8) (opcode.extractLsb' 0 8))
    else some (.push (opcode.getLsbD 8) (opcode.extractLsb' 0 8))
  | .multiple => some (.multiple (opcode.getLsbD 11) (lowAt opcode 8) (opcode.extractLsb' 0 8))
  | .conditionalBranch =>
    some (.conditionalBranch (.ofField (opcode.extractLsb' 8 4)) (opcode.extractLsb' 0 8))
  | .softwareInterrupt => some (.softwareInterrupt (opcode.extractLsb' 0 8))
  | .branch => some (.branch (opcode.extractLsb' 0 11))
  | .longBranch =>
    if opcode.getLsbD 11 then some (.callSecond (opcode.extractLsb' 0 11))
    else some (.callFirst (opcode.extractLsb' 0 11))
  | .undefined => none

/-! ### Operands -/

/-- The access of an immediate-offset format. -/
def immediateAccess (width : Width) (load : Bool) : Access :=
  match width with
  | .byte => .ofByte load
  | .halfword => .ofHalfword load
  | .word => .ofWord load

/-- The offset in bytes of an immediate-offset format. -/
def scaledOffset (width : Width) (offset : BitVec 5) : BitVec 12 :=
  offset.setWidth 12 * BitVec.ofNat 12 width.bytes

/-- The offset in bytes of an eight-bit field that counts words. -/
def wordOffset (offset : BitVec 8) : BitVec 12 :=
  (offset ++ 0#2).setWidth 12

/-- A transfer without write-back at a positive offset. -/
def plainTransfer (access : Access) (data base : Register) (offset : Offset) : SingleTransfer where
  access := access
  data := data
  base := base
  offset := offset
  up := true
  indexing := .pre false

/-- The block transfer of a push: decrementing before each word. -/
def pushTransfer (extra : Bool) (list : BitVec 8) : BlockTransfer where
  load := false
  base := .sp
  list := 0#1 ++ BitVec.ofBool extra ++ 0#6 ++ list
  up := false
  pre := true
  writeBack := true
  mark := false

/-- The block transfer of a pop: incrementing after each word. -/
def popTransfer (extra : Bool) (list : BitVec 8) : BlockTransfer where
  load := true
  base := .sp
  list := BitVec.ofBool extra ++ 0#7 ++ list
  up := true
  pre := false
  writeBack := true
  mark := false

/-- The block transfer of a multiple load or store: incrementing after each word. -/
def multipleTransfer (load : Bool) (base : LowRegister) (list : BitVec 8) : BlockTransfer where
  load := load
  base := .low base
  list := list.setWidth 16
  up := true
  pre := false
  writeBack := true
  mark := false

/-- The distance of a conditional branch from the program counter. -/
def conditionalDistance (offset : BitVec 8) : Word :=
  (offset ++ 0#1).signExtend 32

/-- The distance of an unconditional branch from the program counter. -/
def branchDistance (offset : BitVec 11) : Word :=
  (offset ++ 0#1).signExtend 32

/-- The high part of the distance of a call. -/
def callHigh (offset : BitVec 11) : Word :=
  (offset ++ 0#12).signExtend 32

/-- The low part of the distance of a call. -/
def callLow (offset : BitVec 11) : Word :=
  (offset ++ 0#1).setWidth 32

/-- The program counter as the base of an address: rounded down to a word boundary where it lies two
bytes above one. -/
def wordPc (cpu : Cpu) : Word :=
  cpu.pc &&& ~~~2#32

/-! ### Meaning -/

/-- The reason for which an instruction is refused, if it is. -/
def refusal? : ThumbInstruction → Option Unpredictable
  | push extra list => (pushTransfer extra list).refusal?
  | pop extra list => (popTransfer extra list).refusal?
  | multiple load base list => (multipleTransfer load base list).refusal?
  | _ => none

/-- Gives a low register a result and sets the flags after it. -/
def writeResult (destination : LowRegister) (result : AluResult) : CpuM Flow := do
  modify fun cpu => (cpu.write (.low destination) result.value).withFlagsAfter result
  return .next

/-- Sets the flags after a result, and gives it to a low register unless the operation is a test. -/
def finish (operation : AluOperation) (destination : LowRegister) (result : AluResult) :
    CpuM Flow := do
  if operation.isTest then
    modify (·.withFlagsAfter result)
    return .next
  else
    writeResult destination result

/-- Performs an operation between two low registers. -/
def executeAlu (operation : RegisterOperation) (source destination : LowRegister) : CpuM Flow := do
  let cpu ← get
  let first := cpu.read (.low destination)
  let second := cpu.read (.low source)
  match operation with
  | .process operation =>
    finish operation destination
      (operation.evaluate first ⟨second, none⟩ cpu.cpsr.flags.carry)
  | .shift kind =>
    CpuM.charge 1
    writeResult destination (kind.byRegister first second).result
  | .negate => writeResult destination (subtractWithCarry 0 second true)
  | .multiply =>
    Multiply.execute
      { destination := .low destination
        multiplicand := .low source
        multiplier := .low destination
        addend := none
        setFlags := true }

/-- Performs an operation between any two registers. -/
def executeHigh (operation : HighOperation) (source destination : Register) : CpuM Flow := do
  let cpu ← get
  match operation with
  | .add => CpuM.writeOrBranch destination (cpu.read destination + cpu.read source)
  | .compare =>
    modify (·.withFlagsAfter (subtractWithCarry (cpu.read destination) (cpu.read source) true))
    return .next
  | .move => CpuM.writeOrBranch destination (cpu.read source)
  | .exchange => CpuM.branchExchange (cpu.read source)

/-- Performs an instruction that is not refused. -/
def execute : ThumbInstruction → StepM Flow
  | shiftedMove kind amount source destination => do
    let cpu ← get
    writeResult destination
      (kind.byImmediate (cpu.read (.low source)) amount cpu.cpsr.flags.carry).result
  | addSubtract subtract operand source destination => do
    let cpu ← get
    let first := cpu.read (.low source)
    let second := match operand with
      | .register register => cpu.read (.low register)
      | .immediate value => value.setWidth 32
    writeResult destination
      (if subtract then subtractWithCarry first second true else addWithCarry first second false)
  | immediate operation destination value => do
    let cpu ← get
    finish operation.alu destination
      (operation.alu.evaluate (cpu.read (.low destination)) ⟨value.setWidth 32, none⟩
        cpu.cpsr.flags.carry)
  | alu operation source destination => executeAlu operation source destination
  | highRegister operation source destination => executeHigh operation source destination
  | pcRelativeLoad data offset => do
    let transfer := plainTransfer (.load .word) (.low data) .pc (.immediate (wordOffset offset))
    transfer.executeAt (wordPc (← get)) ((wordOffset offset).setWidth 32)
  | registerOffset access data base offset =>
    (plainTransfer access (.low data) (.low base) (.register (.low offset) .lsl 0)).execute
  | immediateOffset width load data base offset =>
    (plainTransfer (immediateAccess width load) (.low data) (.low base)
      (.immediate (scaledOffset width offset))).execute
  | spRelative load data offset =>
    (plainTransfer (.ofWord load) (.low data) .sp (.immediate (wordOffset offset))).execute
  | loadAddress fromSp destination offset => do
    let cpu ← get
    let base := if fromSp then cpu.read .sp else wordPc cpu
    set (cpu.write (.low destination) (base + (wordOffset offset).setWidth 32))
    return .next
  | adjustStack subtract amount => do
    let cpu ← get
    let distance : Word := (amount ++ 0#2).setWidth 32
    set (cpu.write .sp (if subtract then cpu.read .sp - distance else cpu.read .sp + distance))
    return .next
  | push extra list => (pushTransfer extra list).execute
  | pop extra list => (popTransfer extra list).execute
  | multiple load base list => (multipleTransfer load base list).execute
  | conditionalBranch condition offset => do
    let cpu ← get
    if condition.holds cpu.cpsr.flags then
      CpuM.branchTo (cpu.pc + conditionalDistance offset)
    else
      return .next
  | softwareInterrupt _ => do
    CpuM.raise .softwareInterrupt
    return .jump
  | branch offset => do
    CpuM.branchTo ((← get).pc + branchDistance offset)
  | callFirst offset => do
    modify fun cpu => cpu.write .lr (cpu.pc + callHigh offset)
    return .next
  | callSecond offset => do
    let cpu ← get
    set (cpu.write .lr ((cpu.pc - 2) ||| 1))
    CpuM.branchTo (cpu.read .lr + callLow offset)

end ThumbInstruction

end Armv4t

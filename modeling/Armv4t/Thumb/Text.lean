import Armv4t.Thumb.Instruction
import Armv4t.Assembly

/-!
# The text of Thumb instructions

One line of assembly language per instruction; the halves of a call are written `bl_1` and `bl_2`.
Branch targets are absolute, computed from the address the instruction was fetched from.
-/

namespace Armv4t

/-- The second operand of an addition or subtraction. -/
def SmallOperand.text : SmallOperand → String
  | register source => (Register.low source).text
  | immediate value => Numeral.immediate value.toNat

/-- The mnemonic of an operation between two low registers. -/
def RegisterOperation.text : RegisterOperation → String
  | process operation => operation.text
  | shift kind => kind.text
  | negate => "neg"
  | multiply => "mul"

namespace ThumbInstruction

/-- The amount of a shift: zero stands for 32 in a right shift that does not rotate. -/
def shiftAmount (kind : ShiftKind) (amount : BitVec 5) : Nat :=
  match kind with
  | .lsr | .asr => if amount = 0 then 32 else amount.toNat
  | _ => amount.toNat

/-- An address made of a base and an offset. -/
def addressText (base offset : String) : String :=
  "[" ++ base ++ ", " ++ offset ++ "]"

/-- An offset that counts words. -/
def wordOffsetText (offset : BitVec 8) : String :=
  Numeral.immediate (wordOffset offset).toNat

/-- The target of a conditional branch fetched from an address. -/
def conditionalTarget (address : Word) (offset : BitVec 8) : Word :=
  address + 4 + conditionalDistance offset

/-- The target of an unconditional branch fetched from an address. -/
def branchTarget (address : Word) (offset : BitVec 11) : Word :=
  address + 4 + branchDistance offset

/-- The value of the link register after the first half of a call fetched from an address. -/
def callBase (address : Word) (offset : BitVec 11) : Word :=
  address + 4 + callHigh offset

/-- The line of assembly language for an instruction fetched from an address. -/
def text (instruction : ThumbInstruction) (address : Word) : String :=
  match instruction with
  | shiftedMove kind amount source destination =>
    kind.text ++ " " ++ low destination ++ ", " ++ low source ++ ", #" ++
      toString (shiftAmount kind amount)
  | addSubtract subtract operand source destination =>
    (if subtract then "sub" else "add") ++ " " ++ low destination ++ ", " ++ low source ++ ", " ++
      operand.text
  | immediate operation destination value =>
    operation.alu.text ++ " " ++ low destination ++ ", " ++ Numeral.immediate value.toNat
  | alu operation source destination =>
    operation.text ++ " " ++ low destination ++ ", " ++ low source
  | highRegister operation source destination =>
    match operation with
    | .add => "add " ++ destination.text ++ ", " ++ source.text
    | .compare => "cmp " ++ destination.text ++ ", " ++ source.text
    | .move => "mov " ++ destination.text ++ ", " ++ source.text
    | .exchange => "bx " ++ source.text
  | pcRelativeLoad data offset =>
    "ldr " ++ low data ++ ", " ++ addressText "pc" (wordOffsetText offset)
  | registerOffset access data base offset =>
    access.text ++ " " ++ low data ++ ", " ++ addressText (low base) (low offset)
  | immediateOffset width load data base offset =>
    (immediateAccess width load).text ++ " " ++ low data ++ ", " ++
      addressText (low base) (Numeral.immediate (scaledOffset width offset).toNat)
  | spRelative load data offset =>
    (Access.ofWord load).text ++ " " ++ low data ++ ", " ++
      addressText "sp" (wordOffsetText offset)
  | loadAddress fromSp destination offset =>
    "add " ++ low destination ++ ", " ++ (if fromSp then "sp" else "pc") ++ ", " ++
      wordOffsetText offset
  | adjustStack subtract amount =>
    "add sp, " ++ Numeral.signedImmediate (!subtract) (4 * amount.toNat)
  | push extra list => "push " ++ Assembly.registerList (pushTransfer extra list).registers
  | pop extra list => "pop " ++ Assembly.registerList (popTransfer extra list).registers
  | multiple load base list =>
    (if load then "ldmia" else "stmia") ++ " " ++ low base ++ "!, " ++
      Assembly.registerList (multipleTransfer load base list).registers
  | conditionalBranch condition offset =>
    "b" ++ condition.text ++ " " ++ Numeral.address (conditionalTarget address offset).toNat
  | softwareInterrupt comment => "swi " ++ Numeral.immediate comment.toNat
  | branch offset => "b " ++ Numeral.address (branchTarget address offset).toNat
  | callFirst offset => "bl_1 " ++ Numeral.address (callBase address offset).toNat
  | callSecond offset => "bl_2 " ++ Numeral.immediate (callLow offset).toNat
where
  /-- The text of a low register. -/
  low (register : LowRegister) : String := (Register.low register).text

end ThumbInstruction

end Armv4t

import Armv4t.Arm.Instruction
import Mathlib.Tactic.Common

/-!
# Assembling ARM instructions

`ArmInstruction.opcode` is the unconditional opcode of an ARM instruction.  Every opcode is made of
the same four parts (`assemble`): bits 27 to 20, two registers and twelve bits of operand, below the
condition.  **Decoding an assembled opcode yields the instruction** (`ofOpcode?_opcode`), for every
instruction that has an opcode (`ArmInstruction.Encodable`), and the condition is "always"
(`condition_opcode`).
-/

namespace Armv4t

/-! ### The parts of an opcode -/

/-- The unconditional opcode with the given bits 27 to 20, bits 19 to 16, bits 15 to 12 and operand.
-/
def assemble (high : BitVec 8) (first second : BitVec 4) (operand : BitVec 12) : Word :=
  0xE#4 ++ high ++ first ++ second ++ operand

section Parts

variable (high : BitVec 8) (first second : BitVec 4) (operand : BitVec 12)

theorem getLsbD_assemble (i : Nat) :
    (assemble high first second operand).getLsbD i =
      if i < 12 then operand.getLsbD i
      else if i < 16 then second.getLsbD (i - 12)
      else if i < 20 then first.getLsbD (i - 16)
      else if i < 28 then high.getLsbD (i - 20)
      else (0xE#4).getLsbD (i - 28) := by
  unfold assemble
  simp only [BitVec.getLsbD_append]
  grind

theorem operand_assemble {start length : Nat} (h : start + length ≤ 12) :
    (assemble high first second operand).extractLsb' start length =
      operand.extractLsb' start length :=
  BitVec.extractLsb'_append_eq_of_add_le h

theorem high_assemble {start length : Nat} (h : 20 ≤ start) (h' : start + length ≤ 28) :
    (assemble high first second operand).extractLsb' start length =
      high.extractLsb' (start - 20) length := by
  unfold assemble
  rw [BitVec.extractLsb'_append_eq_of_le (by omega), BitVec.extractLsb'_append_eq_of_le (by omega),
    BitVec.extractLsb'_append_eq_of_le (by omega),
    BitVec.extractLsb'_append_eq_of_add_le (by omega), Nat.sub_sub, Nat.sub_sub]

@[simp] theorem first_assemble :
    (assemble high first second operand).extractLsb' 16 4 = first := by
  unfold assemble
  rw [BitVec.extractLsb'_append_eq_of_le (by decide),
    BitVec.extractLsb'_append_eq_of_le (by decide)]
  exact BitVec.extractLsb'_append_eq_right

@[simp] theorem second_assemble :
    (assemble high first second operand).extractLsb' 12 4 = second := by
  unfold assemble
  rw [BitVec.extractLsb'_append_eq_of_le (by decide)]
  exact BitVec.extractLsb'_append_eq_right

theorem list_assemble :
    (assemble high first second operand).extractLsb' 0 16 = second ++ operand := by
  apply BitVec.eq_of_getLsbD_eq
  intro i hi
  simp only [BitVec.getLsbD_extractLsb', BitVec.getLsbD_append, getLsbD_assemble]
  grind

theorem comment_assemble :
    (assemble high first second operand).extractLsb' 0 24 =
      high.extractLsb' 0 4 ++ first ++ second ++ operand := by
  apply BitVec.eq_of_getLsbD_eq
  intro i hi
  simp only [BitVec.getLsbD_extractLsb', BitVec.getLsbD_append, getLsbD_assemble]
  grind

theorem condition_assemble :
    ArmInstruction.condition (assemble high first second operand) = .always := by
  have hcode : (assemble high first second operand).extractLsb' 28 4 = 0xE#4 := by
    unfold assemble
    simp only [BitVec.extractLsb'_append_eq_of_le, Nat.reduceLeDiff, Nat.reduceSub]
    rfl
  unfold ArmInstruction.condition
  rw [hcode]
  rfl

theorem index_assemble :
    ArmKind.index (assemble high first second operand) = high ++ operand.extractLsb' 4 4 := by
  unfold ArmKind.index
  rw [high_assemble _ _ _ _ (by decide) (by decide), operand_assemble _ _ _ _ (by decide)]
  simp

end Parts

/-! ### Codes of operations and registers -/

/-- The code of an operation. -/
def AluOperation.code : AluOperation → BitVec 4
  | and => 0x0
  | eor => 0x1
  | sub => 0x2
  | rsb => 0x3
  | add => 0x4
  | adc => 0x5
  | sbc => 0x6
  | rsc => 0x7
  | tst => 0x8
  | teq => 0x9
  | cmp => 0xA
  | cmn => 0xB
  | orr => 0xC
  | mov => 0xD
  | bic => 0xE
  | mvn => 0xF

/-- The code of a kind of shift. -/
def ShiftKind.code : ShiftKind → BitVec 2
  | lsl => 0
  | lsr => 1
  | asr => 2
  | ror => 3

/-- The four bits that name a register. -/
def Register.field (register : Register) : BitVec 4 :=
  BitVec.ofFin register.index

/-- The position of R0, which the register fields of an opcode hold that its operation does not use.
-/
def LowRegister.unused : LowRegister := 0

@[simp] theorem AluOperation.ofField_code (operation : AluOperation) :
    ofField operation.code = operation := by
  cases operation <;> rfl

@[simp] theorem ShiftKind.ofField_code (kind : ShiftKind) : ofField kind.code = kind := by
  cases kind <;> rfl

@[simp] theorem Register.ofField_field (register : Register) :
    ofField register.field = register :=
  ofIndex_index register

/-! ### Operands -/

/-- The operand of an eight-bit immediate rotated right. -/
def rotatedField (value : BitVec 8) (rotation : BitVec 4) : BitVec 12 :=
  rotation ++ value

/-- The operand of a register shifted by an immediate. -/
def shiftedField (source : Register) (kind : ShiftKind) (amount : BitVec 5) : BitVec 12 :=
  amount ++ kind.code ++ 0#1 ++ source.field

/-- The operand of three fields of four bits. -/
def tripleField (high middle low : BitVec 4) : BitVec 12 :=
  high ++ middle ++ low

section Operands

variable (source : Register) (kind : ShiftKind) (amount : BitVec 5) (high middle low : BitVec 4)

@[simp] theorem value_rotatedField (value : BitVec 8) (rotation : BitVec 4) :
    (rotatedField value rotation).extractLsb' 0 8 = value :=
  BitVec.extractLsb'_append_eq_right

@[simp] theorem rotation_rotatedField (value : BitVec 8) (rotation : BitVec 4) :
    (rotatedField value rotation).extractLsb' 8 4 = rotation :=
  BitVec.extractLsb'_append_eq_left

@[simp] theorem source_shiftedField :
    (shiftedField source kind amount).extractLsb' 0 4 = source.field := by
  unfold shiftedField
  exact BitVec.extractLsb'_append_eq_right

@[simp] theorem kind_shiftedField :
    (shiftedField source kind amount).extractLsb' 5 2 = kind.code := by
  unfold shiftedField
  rw [BitVec.extractLsb'_append_eq_of_le (by decide),
    BitVec.extractLsb'_append_eq_of_le (by decide)]
  exact BitVec.extractLsb'_append_eq_right

@[simp] theorem amount_shiftedField :
    (shiftedField source kind amount).extractLsb' 7 5 = amount := by
  unfold shiftedField
  rw [BitVec.extractLsb'_append_eq_of_le (by decide),
    BitVec.extractLsb'_append_eq_of_le (by decide)]
  exact BitVec.extractLsb'_append_eq_left

theorem getLsbD_shiftedField : (shiftedField source kind amount).getLsbD 4 = false := by
  rw [shiftedField, BitVec.getLsbD_append, BitVec.getLsbD_append]
  rfl

@[simp] theorem low_tripleField : (tripleField high middle low).extractLsb' 0 4 = low := by
  unfold tripleField
  exact BitVec.extractLsb'_append_eq_right

@[simp] theorem middle_tripleField : (tripleField high middle low).extractLsb' 4 4 = middle := by
  unfold tripleField
  rw [BitVec.extractLsb'_append_eq_of_le (by decide)]
  exact BitVec.extractLsb'_append_eq_right

@[simp] theorem high_tripleField : (tripleField high middle low).extractLsb' 8 4 = high := by
  unfold tripleField
  rw [BitVec.extractLsb'_append_eq_of_le (by decide)]
  exact BitVec.extractLsb'_append_eq_left

/-- The kind of shift between the marks of an operand shifted by a register. -/
theorem kind_tripleField (code : BitVec 2) :
    (tripleField high (0#1 ++ code ++ 1#1) low).extractLsb' 5 2 = code := by
  unfold tripleField
  rw [BitVec.extractLsb'_append_eq_of_le (by decide),
    BitVec.extractLsb'_append_eq_of_add_le (by decide),
    BitVec.extractLsb'_append_eq_of_le (by decide)]
  exact BitVec.extractLsb'_append_eq_right

theorem getLsbD_tripleField {i : Nat} (h : 4 ≤ i) (h' : i < 8) :
    (tripleField high middle low).getLsbD i = middle.getLsbD (i - 4) := by
  have hlow : ¬i < 4 := by omega
  have hmiddle : i - 4 < 4 := by omega
  unfold tripleField
  rw [BitVec.getLsbD_append, if_neg hlow, BitVec.getLsbD_append, if_pos hmiddle]

end Operands

/-- The operand of a data-processing opcode. -/
def ShifterOperand.field : ShifterOperand → BitVec 12
  | immediate value rotation => rotatedField value rotation
  | byImmediate source kind amount => shiftedField source kind amount
  | byRegister source kind amount =>
    tripleField amount.field (0#1 ++ kind.code ++ 1#1) source.field

/-- Whether the operand is an immediate value. -/
def ShifterOperand.isImmediate : ShifterOperand → Bool
  | immediate .. => true
  | _ => false

/-- The operand of a transfer of a word or an unsigned byte. -/
def Offset.field : Offset → BitVec 12
  | immediate value => value
  | register source kind amount => shiftedField source kind amount

/-- The operand of a halfword or signed transfer, around the bits that tell what is transferred. -/
def Offset.halfwordField (offset : Offset) (access : BitVec 4) : BitVec 12 :=
  match offset with
  | immediate value => tripleField (value.extractLsb' 4 4) access (value.extractLsb' 0 4)
  | register source _ _ => tripleField 0 access source.field

/-- Whether the offset is a register. -/
def Offset.isRegister : Offset → Bool
  | immediate _ => false
  | register .. => true

/-- Whether a halfword or signed transfer can have the offset: eight bits, or a plain register. -/
def Offset.IsHalfword : Offset → Prop
  | immediate value => value.extractLsb' 8 4 = 0
  | register _ kind amount => kind = .lsl ∧ amount = 0

/-- Whether the offset is applied before the access. -/
def Indexing.isPre : Indexing → Bool
  | pre _ => true
  | post _ => false

/-- The bit for write-back or for an unprivileged access. -/
def Indexing.mark : Indexing → Bool
  | pre writeBack => writeBack
  | post unprivileged => unprivileged

/-! ### Opcodes -/

/-- The opcode of a data-processing instruction. -/
def DataProcessing.opcode (instruction : DataProcessing) : Word :=
  assemble
    (0b00#2 ++ BitVec.ofBool instruction.second.isImmediate ++ instruction.operation.code ++
      BitVec.ofBool instruction.setFlags)
    instruction.first.field instruction.destination.field instruction.second.field

/-- The opcode of a status write. -/
def StatusWrite.opcode (write : StatusWrite) : Word :=
  match write.source with
  | .immediate value rotation =>
    assemble (0b00110#5 ++ BitVec.ofBool write.saved ++ 0b10#2) write.fields 0xF
      (rotatedField value rotation)
  | .register source =>
    assemble (0b00010#5 ++ BitVec.ofBool write.saved ++ 0b10#2) write.fields 0xF
      (tripleField 0 0 source.field)

/-- The opcode of a multiplication. -/
def Multiply.opcode (operation : Multiply) : Word :=
  assemble
    (0b000000#6 ++ BitVec.ofBool operation.addend.isSome ++ BitVec.ofBool operation.setFlags)
    operation.destination.field (operation.addend.elim 0 Register.field)
    (tripleField operation.multiplier.field 0b1001 operation.multiplicand.field)

/-- The opcode of a long multiplication. -/
def LongMultiply.opcode (operation : LongMultiply) : Word :=
  assemble
    (0b00001#5 ++ BitVec.ofBool operation.signed ++ BitVec.ofBool operation.accumulate ++
      BitVec.ofBool operation.setFlags)
    operation.destinationHigh.field operation.destinationLow.field
    (tripleField operation.multiplier.field 0b1001 operation.multiplicand.field)

/-- The opcode of a swap. -/
def Swap.opcode (swap : Swap) : Word :=
  assemble (0b00010#5 ++ BitVec.ofBool swap.byte ++ 0b00#2) swap.base.field swap.destination.field
    (tripleField 0 0b1001 swap.source.field)

namespace SingleTransfer

/-- The opcode of a transfer of a word or an unsigned byte. -/
def plainOpcode (transfer : SingleTransfer) (byte load : Bool) : Word :=
  assemble
    (0b01#2 ++ BitVec.ofBool transfer.offset.isRegister ++ BitVec.ofBool transfer.indexing.isPre ++
      BitVec.ofBool transfer.up ++ BitVec.ofBool byte ++ BitVec.ofBool transfer.indexing.mark ++
      BitVec.ofBool load)
    transfer.base.field transfer.data.field transfer.offset.field

/-- The opcode of a halfword or signed transfer. -/
def halfwordOpcode (transfer : SingleTransfer) (sign half load : Bool) : Word :=
  assemble
    (0b000#3 ++ BitVec.ofBool transfer.indexing.isPre ++ BitVec.ofBool transfer.up ++
      BitVec.ofBool (!transfer.offset.isRegister) ++ BitVec.ofBool transfer.indexing.mark ++
      BitVec.ofBool load)
    transfer.base.field transfer.data.field
    (transfer.offset.halfwordField (1#1 ++ BitVec.ofBool sign ++ BitVec.ofBool half ++ 1#1))

/-- The opcode of a transfer. -/
def opcode (transfer : SingleTransfer) : Word :=
  match transfer.access with
  | .load .word => transfer.plainOpcode false true
  | .load .byte => transfer.plainOpcode true true
  | .store .word => transfer.plainOpcode false false
  | .store .byte => transfer.plainOpcode true false
  | .load .halfword => transfer.halfwordOpcode false true true
  | .store .halfword => transfer.halfwordOpcode false true false
  | .load .signedByte => transfer.halfwordOpcode true false true
  | .load .signedHalfword => transfer.halfwordOpcode true true true

/-- Whether a transfer has an opcode: those of halfwords and signed values have offsets of their own
and no unprivileged form. -/
def Encodable (transfer : SingleTransfer) : Prop :=
  match transfer.access with
  | .load .word | .load .byte | .store .word | .store .byte => True
  | _ => transfer.offset.IsHalfword ∧ transfer.indexing ≠ .post true

end SingleTransfer

/-- The opcode of a block transfer. -/
def BlockTransfer.opcode (transfer : BlockTransfer) : Word :=
  assemble
    (0b100#3 ++ BitVec.ofBool transfer.pre ++ BitVec.ofBool transfer.up ++
      BitVec.ofBool transfer.mark ++ BitVec.ofBool transfer.writeBack ++
      BitVec.ofBool transfer.load)
    transfer.base.field (transfer.list.extractLsb' 12 4) (transfer.list.extractLsb' 0 12)

namespace ArmInstruction

/-- The unconditional opcode of an instruction. -/
def opcode : ArmInstruction → Word
  | dataProcessing instruction => instruction.opcode
  | readStatus saved destination =>
    assemble (0b00010#5 ++ BitVec.ofBool saved ++ 0b00#2) 0xF destination.field 0
  | writeStatus write => write.opcode
  | multiply operation => operation.opcode
  | multiplyLong operation => operation.opcode
  | swap operation => operation.opcode
  | branchExchange target => assemble 0x12#8 0xF 0xF (tripleField 0xF 0x1#4 target.field)
  | singleTransfer transfer => transfer.opcode
  | blockTransfer transfer => transfer.opcode
  | branch link offset =>
    assemble (0b101#3 ++ BitVec.ofBool link ++ offset.extractLsb' 20 4) (offset.extractLsb' 16 4)
      (offset.extractLsb' 12 4) (offset.extractLsb' 0 12)
  | softwareInterrupt comment =>
    assemble (0b1111#4 ++ comment.extractLsb' 20 4) (comment.extractLsb' 16 4)
      (comment.extractLsb' 12 4) (comment.extractLsb' 0 12)

/-- Whether an instruction has an opcode.  A test that does not set the flags has none. -/
def Encodable : ArmInstruction → Prop
  | dataProcessing instruction => instruction.operation.isTest = true → instruction.setFlags = true
  | singleTransfer transfer => transfer.Encodable
  | _ => True

end ArmInstruction

/-! ### The kind of an assembled opcode -/

namespace ArmKind

theorem ofOpcode_assemble (high : BitVec 8) (first second : BitVec 4) (operand : BitVec 12) :
    ofOpcode (assemble high first second operand) = ofIndex (high ++ operand.extractLsb' 4 4) :=
  congrArg ofIndex (index_assemble high first second operand)

/-- The test operations are those whose code has bit 3 set and bit 2 clear. -/
theorem isTest_ofField : ∀ code : BitVec 4,
    (AluOperation.ofField code).isTest = (code.getLsbD 3 && !code.getLsbD 2) := by
  decide

/-- Bits 27 to 25 select one of eight spaces, each with a rule of its own. -/
theorem ofIndex_of_space {high : BitVec 8} {low : BitVec 4} {space : BitVec 3}
    (h : high.extractLsb' 5 3 = space) :
    ofIndex (high ++ low) = match space.toNat with
      | 0 => ofRegisterSpace high low
      | 1 =>
        if high.getLsbD 4 ∧ ¬high.getLsbD 3 ∧ ¬high.getLsbD 0 then
          (if high.getLsbD 1 then writeStatus else undefined)
        else dataProcessing
      | 2 => singleTransfer
      | 3 => if low.getLsbD 0 then undefined else singleTransfer
      | 4 => blockTransfer
      | 5 => branch
      | 6 => undefined
      | _ => if high.getLsbD 4 then softwareInterrupt else undefined := by
  have hhigh : (high ++ low).extractLsb' 4 8 = high := BitVec.extractLsb'_append_eq_left
  have hlow : (high ++ low).extractLsb' 0 4 = low := BitVec.extractLsb'_append_eq_right
  -- the two parts name the index completely, so that the table is read with them as variables
  generalize high ++ low = index at hhigh hlow
  subst hhigh hlow h
  rfl

/-- The same for an opcode. -/
theorem ofOpcode_of_space {opcode : Word} {space : BitVec 3}
    (h : opcode.extractLsb' 25 3 = space) :
    ofOpcode opcode = match space.toNat with
      | 0 => ofRegisterSpace (opcode.extractLsb' 20 8) (opcode.extractLsb' 4 4)
      | 1 =>
        if opcode.getLsbD 24 ∧ ¬opcode.getLsbD 23 ∧ ¬opcode.getLsbD 20 then
          (if opcode.getLsbD 21 then writeStatus else undefined)
        else dataProcessing
      | 2 => singleTransfer
      | 3 => if opcode.getLsbD 4 then undefined else singleTransfer
      | 4 => blockTransfer
      | 5 => branch
      | 6 => undefined
      | _ => if opcode.getLsbD 24 then softwareInterrupt else undefined := by
  -- bits 25 to 27 of the opcode are the topmost ones of the index
  have hspace : (opcode.extractLsb' 20 8).extractLsb' 5 3 = space := by
    rw [← h]
    ext i hi
    rw [BitVec.getElem_extractLsb', BitVec.getElem_extractLsb', BitVec.getLsbD_extractLsb',
      decide_eq_true (by omega), Bool.true_and, ← Nat.add_assoc]
  have hbit (start length i : Nat) (hi : i < length) :
      (opcode.extractLsb' start length).getLsbD i = opcode.getLsbD (start + i) := by
    rw [BitVec.getLsbD_extractLsb', decide_eq_true hi, Bool.true_and]
  have hkind : ofOpcode opcode = _ := ofIndex_of_space hspace
  rw [hbit 20 8 4 (by decide), hbit 20 8 3 (by decide), hbit 20 8 0 (by decide),
    hbit 20 8 1 (by decide), hbit 4 4 0 (by decide)] at hkind
  exact hkind

/-- An immediate operand makes a data-processing instruction, unless a test does not set flags. -/
theorem ofIndex_immediate (code low : BitVec 4) (set : Bool)
    (h : (AluOperation.ofField code).isTest = true → set = true) :
    ofIndex (0b00#2 ++ 1#1 ++ code ++ BitVec.ofBool set ++ low) = .dataProcessing := by
  have hspace : (0b00#2 ++ 1#1 ++ code ++ BitVec.ofBool set).extractLsb' 5 3 = 0b001#3 := by
    simp only [BitVec.extractLsb'_append_eq_of_le, Nat.reduceLeDiff, Nat.reduceSub]
    rfl
  refine (ofIndex_of_space hspace).trans (if_neg ?_)
  rw [isTest_ofField] at h
  simp only [BitVec.getLsbD_append]
  grind

/-- So does a register operand that is not marked as a multiplication or a transfer. -/
theorem ofIndex_register (code low : BitVec 4) (set : Bool)
    (h : (AluOperation.ofField code).isTest = true → set = true)
    (hlow : ¬(low.getLsbD 3 = true ∧ low.getLsbD 0 = true)) :
    ofIndex (0b00#2 ++ 0#1 ++ code ++ BitVec.ofBool set ++ low) = .dataProcessing := by
  have hspace : (0b00#2 ++ 0#1 ++ code ++ BitVec.ofBool set).extractLsb' 5 3 = 0b000#3 := by
    simp only [BitVec.extractLsb'_append_eq_of_le, Nat.reduceLeDiff, Nat.reduceSub]
    rfl
  -- the pattern of a multiplication has both marked bits set
  have hnine : low ≠ 0b1001 := by
    rintro rfl
    exact hlow ⟨rfl, rfl⟩
  refine (ofIndex_of_space hspace).trans ?_
  show ofRegisterSpace _ _ = _
  rw [isTest_ofField] at h
  unfold ofRegisterSpace
  rw [if_neg hnine, if_neg hlow, if_neg]
  simp only [BitVec.getLsbD_append]
  grind

theorem ofIndex_multiply : ∀ accumulate set : Bool,
    ofIndex (0b000000#6 ++ BitVec.ofBool accumulate ++ BitVec.ofBool set ++ 0b1001#4) =
      .multiply := by
  decide

theorem ofIndex_multiplyLong : ∀ signed accumulate set : Bool,
    ofIndex (0b00001#5 ++ BitVec.ofBool signed ++ BitVec.ofBool accumulate ++
      BitVec.ofBool set ++ 0b1001#4) = .multiplyLong := by
  decide

theorem ofIndex_swap : ∀ byte : Bool,
    ofIndex (0b00010#5 ++ BitVec.ofBool byte ++ 0b00#2 ++ 0b1001#4) = .swap := by
  decide

theorem ofIndex_branchExchange : ofIndex (0x12#8 ++ 0x1#4) = .branchExchange := by
  decide

theorem ofIndex_readStatus : ∀ saved : Bool,
    ofIndex (0b00010#5 ++ BitVec.ofBool saved ++ 0b00#2 ++ 0b0000#4) = .readStatus := by
  decide

theorem ofIndex_writeStatus : ∀ saved : Bool,
    ofIndex (0b00010#5 ++ BitVec.ofBool saved ++ 0b10#2 ++ 0b0000#4) = .writeStatus := by
  decide

theorem ofIndex_writeStatus_immediate (saved : Bool) (low : BitVec 4) :
    ofIndex (0b00110#5 ++ BitVec.ofBool saved ++ 0b10#2 ++ low) = .writeStatus := by
  have hspace : (0b00110#5 ++ BitVec.ofBool saved ++ 0b10#2).extractLsb' 5 3 = 0b001#3 := by
    simp only [BitVec.extractLsb'_append_eq_of_le, Nat.reduceLeDiff, Nat.reduceSub]
    rfl
  refine (ofIndex_of_space hspace).trans ?_
  cases saved <;> rfl

theorem ofIndex_singleTransfer (register pre up byte mark load : Bool) (low : BitVec 4)
    (h : register = true → low.getLsbD 0 = false) :
    ofIndex (0b01#2 ++ BitVec.ofBool register ++ BitVec.ofBool pre ++ BitVec.ofBool up ++
      BitVec.ofBool byte ++ BitVec.ofBool mark ++ BitVec.ofBool load ++ low) = .singleTransfer := by
  have hspace : (0b01#2 ++ BitVec.ofBool register ++ BitVec.ofBool pre ++ BitVec.ofBool up ++
      BitVec.ofBool byte ++ BitVec.ofBool mark ++ BitVec.ofBool load).extractLsb' 5 3 =
        0b01#2 ++ BitVec.ofBool register := by
    simp only [BitVec.extractLsb'_append_eq_of_le, Nat.reduceLeDiff, Nat.reduceSub]
    exact BitVec.extractLsb'_eq_self
  refine (ofIndex_of_space hspace).trans ?_
  -- the two spaces differ in whether the offset is a register
  cases register with
  | true => exact if_neg (Bool.eq_false_iff.1 (h rfl))
  | false => rfl

theorem ofIndex_halfwordTransfer (pre up immediate mark load sign half : Bool)
    (h : sign = true ∨ half = true) (hload : sign = true → load = true) :
    ofIndex (0b000#3 ++ BitVec.ofBool pre ++ BitVec.ofBool up ++ BitVec.ofBool immediate ++
      BitVec.ofBool mark ++ BitVec.ofBool load ++
        (1#1 ++ BitVec.ofBool sign ++ BitVec.ofBool half ++ 1#1)) = .halfwordTransfer := by
  have hspace : (0b000#3 ++ BitVec.ofBool pre ++ BitVec.ofBool up ++ BitVec.ofBool immediate ++
      BitVec.ofBool mark ++ BitVec.ofBool load).extractLsb' 5 3 = 0b000#3 := by
    simp only [BitVec.extractLsb'_append_eq_of_le, Nat.reduceLeDiff, Nat.reduceSub]
    rfl
  -- without sign and half bit this would be a multiplication or a swap
  have hnine : (1#1 ++ BitVec.ofBool sign ++ BitVec.ofBool half ++ 1#1 : BitVec 4) ≠ 0b1001 := by
    cases sign <;> cases half <;> simp at h ⊢
  refine (ofIndex_of_space hspace).trans ?_
  show ofRegisterSpace _ _ = _
  unfold ofRegisterSpace
  rw [if_neg hnine, if_pos, if_neg]
  · simp only [BitVec.getLsbD_append]
    grind
  · simp only [BitVec.getLsbD_append]
    grind

theorem ofIndex_blockTransfer (pre up mark writeBack load : Bool) (low : BitVec 4) :
    ofIndex (0b100#3 ++ BitVec.ofBool pre ++ BitVec.ofBool up ++ BitVec.ofBool mark ++
      BitVec.ofBool writeBack ++ BitVec.ofBool load ++ low) = .blockTransfer := by
  have hspace : (0b100#3 ++ BitVec.ofBool pre ++ BitVec.ofBool up ++ BitVec.ofBool mark ++
      BitVec.ofBool writeBack ++ BitVec.ofBool load).extractLsb' 5 3 = 0b100#3 := by
    simp only [BitVec.extractLsb'_append_eq_of_le, Nat.reduceLeDiff, Nat.reduceSub]
    rfl
  exact ofIndex_of_space hspace

theorem ofIndex_branch (link : Bool) (rest low : BitVec 4) :
    ofIndex (0b101#3 ++ BitVec.ofBool link ++ rest ++ low) = .branch := by
  have hspace : (0b101#3 ++ BitVec.ofBool link ++ rest).extractLsb' 5 3 = 0b101#3 := by
    simp only [BitVec.extractLsb'_append_eq_of_le, Nat.reduceLeDiff, Nat.reduceSub]
    rfl
  exact ofIndex_of_space hspace

theorem ofIndex_softwareInterrupt (rest low : BitVec 4) :
    ofIndex (0b1111#4 ++ rest ++ low) = .softwareInterrupt := by
  have hspace : (0b1111#4 ++ rest).extractLsb' 5 3 = 0b111#3 := by
    simp only [BitVec.extractLsb'_append_eq_of_le, Nat.reduceLeDiff, Nat.reduceSub]
    rfl
  refine (ofIndex_of_space hspace).trans (if_pos ?_)
  rw [BitVec.getLsbD_append]
  rfl

end ArmKind

/-! ### Decoding an assembled opcode -/

open ArmInstruction

theorem DataProcessing.kind_opcode (instruction : DataProcessing)
    (h : instruction.operation.isTest = true → instruction.setFlags = true) :
    ArmKind.ofOpcode instruction.opcode = .dataProcessing := by
  rw [← AluOperation.ofField_code instruction.operation] at h
  unfold opcode
  rw [ArmKind.ofOpcode_assemble]
  cases instruction.second with
  -- the immediate bit is in the upper part, so that the field is not looked at
  | immediate value rotation => exact ArmKind.ofIndex_immediate _ _ _ h
  | byImmediate source kind amount =>
    -- bit 4 or bit 7 of the field is zero, which tells the instruction from a multiplication
    refine ArmKind.ofIndex_register _ _ _ h ?_
    simp [ShifterOperand.field, getLsbD_shiftedField, -BitVec.getLsbD_eq_getElem]
  | byRegister source kind amount =>
    refine ArmKind.ofIndex_register _ _ _ h ?_
    simp only [ShifterOperand.field, middle_tripleField]
    cases kind <;> decide

theorem ShifterOperand.shifterOperand_field (operand : ShifterOperand) (code : BitVec 4)
    (set : Bool) (first second : BitVec 4) :
    shifterOperand (assemble
      (0b00#2 ++ BitVec.ofBool operand.isImmediate ++ code ++ BitVec.ofBool set)
      first second operand.field) = operand := by
  unfold shifterOperand
  simp only [getLsbD_assemble, BitVec.getLsbD_append, BitVec.getLsbD_ofBool, Nat.reduceLT,
    Nat.reduceSub, if_true, if_false, decide_true, Bool.true_and]
  cases operand with
  | immediate value rotation => simp [isImmediate, field, operand_assemble]
  | byImmediate source kind amount =>
    simp [isImmediate, field, shiftKind, shiftAmount, registerAt, operand_assemble,
      getLsbD_shiftedField, -BitVec.getLsbD_eq_getElem]
  | byRegister source kind amount =>
    -- a shift by a register is marked in bit 4 of the field
    have hmark : (tripleField amount.field (0#1 ++ kind.code ++ 1#1) source.field).getLsbD 4 =
        true := by
      rw [getLsbD_tripleField _ _ _ (by decide) (by decide)]
      cases kind <;> rfl
    simp [isImmediate, field, shiftKind, registerAt, operand_assemble, kind_tripleField, hmark,
      -BitVec.getLsbD_eq_getElem]

theorem DataProcessing.ofDataProcessing_opcode (instruction : DataProcessing) :
    ofDataProcessing instruction.opcode = instruction := by
  obtain ⟨operation, set, destination, first, second⟩ := instruction
  have hcode : (0b00#2 ++ BitVec.ofBool second.isImmediate ++ operation.code ++
      BitVec.ofBool set : BitVec 8).extractLsb' 1 4 = operation.code := by
    rw [BitVec.extractLsb'_append_eq_of_le (by decide)]
    exact BitVec.extractLsb'_append_eq_right
  unfold ofDataProcessing opcode
  dsimp only
  rw [ShifterOperand.shifterOperand_field, high_assemble _ _ _ _ (by decide) (by decide)]
  simp only [hcode, registerAt, first_assemble, second_assemble, Register.ofField_field,
    AluOperation.ofField_code, getLsbD_assemble, BitVec.getLsbD_append, BitVec.getLsbD_ofBool,
    Nat.reduceLT, Nat.reduceSub, if_true, if_false, decide_true, Bool.true_and]

theorem StatusWrite.kind_opcode (write : StatusWrite) :
    ArmKind.ofOpcode write.opcode = .writeStatus := by
  unfold opcode
  cases write.source with
  | immediate value rotation =>
    dsimp only
    rw [ArmKind.ofOpcode_assemble]
    exact ArmKind.ofIndex_writeStatus_immediate _ _
  | register source =>
    dsimp only
    rw [ArmKind.ofOpcode_assemble, middle_tripleField]
    exact ArmKind.ofIndex_writeStatus _

theorem StatusWrite.ofStatusWrite_opcode (write : StatusWrite) :
    ofStatusWrite write.opcode = write := by
  obtain ⟨saved, fields, source⟩ := write
  unfold ofStatusWrite opcode
  cases source <;>
    simp only [getLsbD_assemble, BitVec.getLsbD_append, BitVec.getLsbD_ofBool, Nat.reduceLT,
      Nat.reduceSub, if_true, if_false, decide_true, Bool.true_and] <;>
    simp [operand_assemble, registerAt]

theorem Multiply.kind_opcode (operation : Multiply) :
    ArmKind.ofOpcode operation.opcode = .multiply := by
  unfold opcode
  rw [ArmKind.ofOpcode_assemble, middle_tripleField]
  exact ArmKind.ofIndex_multiply _ _

theorem Multiply.ofMultiply_opcode (operation : Multiply) :
    ofMultiply operation.opcode = operation := by
  obtain ⟨destination, multiplicand, multiplier, addend, set⟩ := operation
  unfold ofMultiply opcode
  simp only [getLsbD_assemble, BitVec.getLsbD_append, BitVec.getLsbD_ofBool, Nat.reduceLT,
    Nat.reduceSub, if_true, if_false, decide_true, Bool.true_and]
  cases addend <;> simp [registerAt, operand_assemble]

theorem LongMultiply.kind_opcode (operation : LongMultiply) :
    ArmKind.ofOpcode operation.opcode = .multiplyLong := by
  unfold opcode
  rw [ArmKind.ofOpcode_assemble, middle_tripleField]
  exact ArmKind.ofIndex_multiplyLong _ _ _

theorem LongMultiply.ofMultiplyLong_opcode (operation : LongMultiply) :
    ofMultiplyLong operation.opcode = operation := by
  unfold ofMultiplyLong opcode
  simp only [getLsbD_assemble, BitVec.getLsbD_append, BitVec.getLsbD_ofBool, Nat.reduceLT,
    Nat.reduceSub, if_true, if_false, decide_true, Bool.true_and]
  simp [registerAt, operand_assemble]

theorem Swap.kind_opcode (swap : Swap) : ArmKind.ofOpcode swap.opcode = .swap := by
  unfold opcode
  rw [ArmKind.ofOpcode_assemble, middle_tripleField]
  exact ArmKind.ofIndex_swap _

theorem Swap.ofSwap_opcode (swap : Swap) : ofSwap swap.opcode = swap := by
  unfold ofSwap opcode
  simp only [getLsbD_assemble, BitVec.getLsbD_append, BitVec.getLsbD_ofBool, Nat.reduceLT,
    Nat.reduceSub, if_true, if_false, decide_true, Bool.true_and]
  simp [registerAt, operand_assemble]

namespace SingleTransfer

variable (transfer : SingleTransfer)

theorem kind_plainOpcode (byte load : Bool) :
    ArmKind.ofOpcode (transfer.plainOpcode byte load) = .singleTransfer := by
  unfold plainOpcode
  rw [ArmKind.ofOpcode_assemble]
  refine ArmKind.ofIndex_singleTransfer _ _ _ _ _ _ _ ?_
  cases transfer.offset with
  | immediate value => simp [Offset.isRegister]
  | register source kind amount =>
    simp [Offset.field, getLsbD_shiftedField, -BitVec.getLsbD_eq_getElem]

theorem ofSingleTransfer_plainOpcode (byte load : Bool) :
    ofSingleTransfer (transfer.plainOpcode byte load) =
      { transfer with access := if byte then .ofByte load else .ofWord load } := by
  obtain ⟨access, data, base, offset, up, indexing⟩ := transfer
  unfold ofSingleTransfer plainOpcode ArmInstruction.indexing
  simp only [getLsbD_assemble, BitVec.getLsbD_append, BitVec.getLsbD_ofBool, Nat.reduceLT,
    Nat.reduceSub, if_true, if_false, decide_true, Bool.true_and]
  cases offset <;> cases indexing <;>
    simp [registerAt, shiftKind, shiftAmount, operand_assemble, Offset.isRegister, Offset.field,
      Indexing.isPre, Indexing.mark]

theorem kind_halfwordOpcode (sign half load : Bool) (h : sign = true ∨ half = true)
    (h' : sign = true → load = true) :
    ArmKind.ofOpcode (transfer.halfwordOpcode sign half load) = .halfwordTransfer := by
  unfold halfwordOpcode
  rw [ArmKind.ofOpcode_assemble]
  have hmiddle (access : BitVec 4) :
      (transfer.offset.halfwordField access).extractLsb' 4 4 = access := by
    unfold Offset.halfwordField
    cases transfer.offset <;> exact middle_tripleField _ _ _
  rw [hmiddle]
  exact ArmKind.ofIndex_halfwordTransfer _ _ _ _ _ _ _ h h'

/-- The offset of a halfword or signed transfer is read back if it is of the form these have. -/
theorem offset_halfwordOpcode (sign half load : Bool) (h : transfer.offset.IsHalfword) :
    (ofHalfwordTransfer (transfer.halfwordOpcode sign half load)).offset = transfer.offset := by
  unfold ofHalfwordTransfer halfwordOpcode
  simp only [getLsbD_assemble, BitVec.getLsbD_append, BitVec.getLsbD_ofBool, Nat.reduceLT,
    Nat.reduceSub, if_true, if_false, decide_true, Bool.true_and]
  cases ho : transfer.offset with
  | immediate value =>
    rw [ho] at h
    -- a halfword transfer splits its offset into two halves of four bits
    have hvalue : (value.extractLsb' 4 4 ++ value.extractLsb' 0 4 : BitVec 8).setWidth 12 =
        value := by
      apply BitVec.eq_of_getLsbD_eq
      intro i hi
      -- above the eight bits the offset is zero, by the bound on it
      have htop := congrArg (·.getLsbD (i - 8)) h
      simp only [BitVec.getLsbD_extractLsb'] at htop
      simp only [BitVec.getLsbD_setWidth, BitVec.getLsbD_append, BitVec.getLsbD_extractLsb']
      grind
    simp [Offset.isRegister, Offset.halfwordField, operand_assemble, hvalue]
  | register source kind amount =>
    rw [ho] at h
    obtain ⟨rfl, rfl⟩ := h
    simp [Offset.isRegister, Offset.halfwordField, operand_assemble, registerAt]

theorem access_halfwordOpcode (sign half load : Bool) :
    (ofHalfwordTransfer (transfer.halfwordOpcode sign half load)).access =
      match load, sign, half with
      | true, true, false => .load .signedByte
      | true, true, true => .load .signedHalfword
      | load, _, _ => .ofHalfword load := by
  -- bits 4 to 7 hold the mark and the kind, whichever form the offset has
  have hmiddle {i : Nat} (h : 4 ≤ i) (h' : i < 8) :
      (transfer.halfwordOpcode sign half load).getLsbD i =
        (1#1 ++ BitVec.ofBool sign ++ BitVec.ofBool half ++ 1#1).getLsbD (i - 4) := by
    unfold halfwordOpcode Offset.halfwordField
    rw [getLsbD_assemble, if_pos (by omega)]
    cases transfer.offset <;> exact getLsbD_tripleField _ _ _ h h'
  have hload : (transfer.halfwordOpcode sign half load).getLsbD 20 = load := by
    unfold halfwordOpcode
    simp only [getLsbD_assemble, BitVec.getLsbD_append, BitVec.getLsbD_ofBool, Nat.reduceLT,
      Nat.reduceSub, if_true, if_false, decide_true, Bool.true_and]
  have hsign : (transfer.halfwordOpcode sign half load).getLsbD 6 = sign := by
    rw [hmiddle (by decide) (by decide)]
    cases sign <;> cases half <;> rfl
  have hhalf : (transfer.halfwordOpcode sign half load).getLsbD 5 = half := by
    rw [hmiddle (by decide) (by decide)]
    cases sign <;> cases half <;> rfl
  generalize transfer.halfwordOpcode sign half load = opcode at hload hsign hhalf
  subst hload hsign hhalf
  rfl

theorem ofHalfwordTransfer_halfwordOpcode (sign half load : Bool)
    (h : transfer.offset.IsHalfword) (hi : transfer.indexing ≠ .post true) :
    ofHalfwordTransfer (transfer.halfwordOpcode sign half load) =
      { transfer with
        access := (ofHalfwordTransfer (transfer.halfwordOpcode sign half load)).access } := by
  have hoffset := transfer.offset_halfwordOpcode sign half load h
  -- all but the access and the offset, which the two lemmas above read
  have hrest (fields : Word) (hf : fields = transfer.halfwordOpcode sign half load) :
      registerAt fields 12 = transfer.data ∧ registerAt fields 16 = transfer.base ∧
        fields.getLsbD 23 = transfer.up ∧
          ArmInstruction.indexing fields false = transfer.indexing := by
    subst hf
    unfold halfwordOpcode ArmInstruction.indexing registerAt
    simp only [first_assemble, second_assemble, Register.ofField_field, getLsbD_assemble,
      BitVec.getLsbD_append, BitVec.getLsbD_ofBool, Nat.reduceLT, Nat.reduceSub, if_true, if_false,
      decide_true, Bool.true_and, true_and]
    cases hx : transfer.indexing with
    | pre writeBack => simp [Indexing.isPre, Indexing.mark]
    | post unprivileged => simp_all [Indexing.isPre]
  obtain ⟨hdata, hbase, hup, hindexing⟩ := hrest _ rfl
  unfold ofHalfwordTransfer at hoffset ⊢
  rw [SingleTransfer.mk.injEq]
  exact ⟨rfl, hdata, hbase, hoffset, hup, hindexing⟩

/-- Decoding the opcode of a transfer yields the transfer. -/
theorem ofOpcode?_opcode (h : transfer.Encodable) :
    ofOpcode? transfer.opcode = some (.singleTransfer transfer) := by
  -- words and bytes have one encoding, halfwords and signed bytes another
  have hplain (byte load : Bool)
      (ha : (if byte then .ofByte load else .ofWord load) = transfer.access) :
      ofOpcode? (transfer.plainOpcode byte load) = some (.singleTransfer transfer) := by
    unfold ofOpcode?
    rw [kind_plainOpcode]
    dsimp only
    rw [ofSingleTransfer_plainOpcode, ha]
  have hhalf (sign half load : Bool) (hs : sign = true ∨ half = true)
      (hl : sign = true → load = true) (hx : transfer.offset.IsHalfword)
      (hi : transfer.indexing ≠ .post true)
      (ha : (ofHalfwordTransfer (transfer.halfwordOpcode sign half load)).access =
        transfer.access) :
      ofOpcode? (transfer.halfwordOpcode sign half load) = some (.singleTransfer transfer) := by
    unfold ofOpcode?
    rw [kind_halfwordOpcode transfer sign half load hs hl]
    dsimp only
    rw [ofHalfwordTransfer_halfwordOpcode transfer sign half load hx hi, ha]
  unfold Encodable at h
  unfold opcode
  cases ha : transfer.access with
  | load format =>
    rw [ha] at h
    cases format with
    | word => exact hplain false true ha.symm
    | byte => exact hplain true true ha.symm
    | halfword =>
      exact hhalf false true true (.inr rfl) (fun _ => rfl) h.1 h.2
        ((access_halfwordOpcode ..).trans ha.symm)
    | signedByte =>
      exact hhalf true false true (.inl rfl) (fun _ => rfl) h.1 h.2
        ((access_halfwordOpcode ..).trans ha.symm)
    | signedHalfword =>
      exact hhalf true true true (.inl rfl) (fun _ => rfl) h.1 h.2
        ((access_halfwordOpcode ..).trans ha.symm)
  | store width =>
    rw [ha] at h
    cases width with
    | word => exact hplain false false ha.symm
    | byte => exact hplain true false ha.symm
    | halfword =>
      -- there is no signed store
      exact hhalf false true false (.inr rfl) (fun hs => absurd hs (by decide)) h.1 h.2
        ((access_halfwordOpcode ..).trans ha.symm)

end SingleTransfer

theorem BlockTransfer.kind_opcode (transfer : BlockTransfer) :
    ArmKind.ofOpcode transfer.opcode = .blockTransfer := by
  unfold opcode
  rw [ArmKind.ofOpcode_assemble]
  exact ArmKind.ofIndex_blockTransfer _ _ _ _ _ _

theorem BlockTransfer.ofBlockTransfer_opcode (transfer : BlockTransfer) :
    ofBlockTransfer transfer.opcode = transfer := by
  have hlist : transfer.list.extractLsb' 12 4 ++ transfer.list.extractLsb' 0 12 = transfer.list :=
    BitVec.extractLsb'_append_extractLsb'
  unfold ofBlockTransfer opcode
  rw [list_assemble, hlist]
  simp only [getLsbD_assemble, BitVec.getLsbD_append, BitVec.getLsbD_ofBool, Nat.reduceLT,
    Nat.reduceSub, if_true, if_false, decide_true, Bool.true_and]
  simp [registerAt]

namespace ArmInstruction

/-- The 24 bits that a branch and a software interrupt keep in the last three parts and the lowest
bits of the first. -/
theorem comment_parts {n : Nat} (top : BitVec n) (comment : BitVec 24) :
    (top ++ comment.extractLsb' 20 4).extractLsb' 0 4 ++ comment.extractLsb' 16 4 ++
      comment.extractLsb' 12 4 ++ comment.extractLsb' 0 12 = comment := by
  apply BitVec.eq_of_getLsbD_eq
  intro i hi
  simp only [BitVec.getLsbD_append, BitVec.getLsbD_extractLsb']
  grind

theorem ofOpcode?_branch (link : Bool) (offset : BitVec 24) :
    ofOpcode? (branch link offset).opcode = some (branch link offset) := by
  unfold ofOpcode? opcode
  rw [ArmKind.ofOpcode_assemble, ArmKind.ofIndex_branch]
  dsimp only
  rw [comment_assemble, comment_parts]
  simp only [getLsbD_assemble, BitVec.getLsbD_append, BitVec.getLsbD_ofBool, Nat.reduceLT,
    Nat.reduceSub, if_true, if_false, decide_true, Bool.true_and]

theorem ofOpcode?_softwareInterrupt (comment : BitVec 24) :
    ofOpcode? (softwareInterrupt comment).opcode = some (softwareInterrupt comment) := by
  unfold ofOpcode? opcode
  rw [ArmKind.ofOpcode_assemble, ArmKind.ofIndex_softwareInterrupt]
  dsimp only
  rw [comment_assemble, comment_parts]

theorem ofOpcode?_readStatus (saved : Bool) (destination : Register) :
    ofOpcode? (readStatus saved destination).opcode = some (readStatus saved destination) := by
  have hkind := ArmKind.ofIndex_readStatus saved
  unfold ofOpcode? opcode
  rw [ArmKind.ofOpcode_assemble]
  dsimp only
  rw [show (0 : BitVec 12).extractLsb' 4 4 = 0b0000#4 by rfl, hkind]
  simp only [registerAt, second_assemble, Register.ofField_field, getLsbD_assemble,
    BitVec.getLsbD_append, BitVec.getLsbD_ofBool, Nat.reduceLT, Nat.reduceSub, if_true, if_false,
    decide_true, Bool.true_and]

theorem ofOpcode?_branchExchange (target : Register) :
    ofOpcode? (branchExchange target).opcode = some (branchExchange target) := by
  unfold ofOpcode? opcode
  rw [ArmKind.ofOpcode_assemble, middle_tripleField, ArmKind.ofIndex_branchExchange]
  simp [registerAt, operand_assemble]

/-- **Decoding an assembled opcode yields the instruction.** -/
theorem ofOpcode?_opcode {instruction : ArmInstruction} (h : instruction.Encodable) :
    ofOpcode? instruction.opcode = some instruction := by
  cases instruction with
  | dataProcessing instruction =>
    unfold ofOpcode? opcode
    rw [instruction.kind_opcode h, instruction.ofDataProcessing_opcode]
  | readStatus saved destination => exact ofOpcode?_readStatus saved destination
  | writeStatus write =>
    unfold ofOpcode? opcode
    rw [write.kind_opcode, write.ofStatusWrite_opcode]
  | multiply operation =>
    unfold ofOpcode? opcode
    rw [operation.kind_opcode, operation.ofMultiply_opcode]
  | multiplyLong operation =>
    unfold ofOpcode? opcode
    rw [operation.kind_opcode, operation.ofMultiplyLong_opcode]
  | swap operation =>
    unfold ofOpcode? opcode
    rw [operation.kind_opcode, operation.ofSwap_opcode]
  | branchExchange target => exact ofOpcode?_branchExchange target
  | singleTransfer transfer => exact transfer.ofOpcode?_opcode h
  | blockTransfer transfer =>
    unfold ofOpcode? opcode
    rw [transfer.kind_opcode, transfer.ofBlockTransfer_opcode]
  | branch link offset => exact ofOpcode?_branch link offset
  | softwareInterrupt comment => exact ofOpcode?_softwareInterrupt comment

/-- An assembled opcode is unconditional. -/
theorem condition_opcode (instruction : ArmInstruction) :
    condition instruction.opcode = .always := by
  cases instruction with
  | writeStatus write =>
    change condition write.opcode = .always
    unfold StatusWrite.opcode
    split <;> exact condition_assemble ..
  | singleTransfer transfer =>
    change condition transfer.opcode = .always
    unfold SingleTransfer.opcode
    split <;> exact condition_assemble ..
  | _ => exact condition_assemble ..

end ArmInstruction

end Armv4t

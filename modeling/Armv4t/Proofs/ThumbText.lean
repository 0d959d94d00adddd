import Armv4t.Proofs.BlockText
import Armv4t.Proofs.Calls

/-!
# What the text of a Thumb opcode says

The text of a Thumb instruction is a line whose mnemonic and operands follow from the instruction
(`ThumbInstruction.ofText?_text`), and the instruction is read back from the line
(`ThumbInstruction.ofLine?_line`).  Twenty formats share their mnemonics; what tells them apart is
the number and the sort of the operands.  Only two differences between opcodes do not show: a
comparison of two low registers exists in two formats, and the exchange ignores a field.  They make
no difference to what is executed either (`ThumbInstruction.execute_plain`), so that **opcodes that
are written alike do alike**, on every processor and bus (`executeThumb_eq_of_text_eq`).
-/

namespace Armv4t

open Assembly

namespace ThumbInstruction

/-! ### The line of an instruction -/

/-- The second operand of an addition or subtraction. -/
def smallOperand : SmallOperand → Operand
  | .register source => .register (.low source)
  | .immediate value => .number false value.toNat

/-- The mnemonic of an operation between any two registers. -/
def highMnemonic : HighOperation → String
  | .add => "add"
  | .compare => "cmp"
  | .move => "mov"
  | .exchange => "bx"

/-- An address from a base and an offset, behind a register. -/
def accessLine (access : Access) (data : LowRegister) (base : Register) (offset : Operand) : Line :=
  ⟨access.text, [.register (.low data), .register base, offset]⟩

/-- The line that an instruction fetched from an address is written as. -/
def line (address : Word) : ThumbInstruction → Line
  | shiftedMove kind amount source destination =>
    ⟨kind.text, [.register (.low destination), .register (.low source),
      .number false (shiftAmount kind amount)]⟩
  | addSubtract subtract operand source destination =>
    ⟨if subtract then "sub" else "add",
      [.register (.low destination), .register (.low source), smallOperand operand]⟩
  | immediate operation destination value =>
    ⟨operation.alu.text, [.register (.low destination), .number false value.toNat]⟩
  | alu operation source destination =>
    ⟨operation.text, [.register (.low destination), .register (.low source)]⟩
  | highRegister .exchange source _ => ⟨"bx", [.register source]⟩
  | highRegister operation source destination =>
    ⟨highMnemonic operation, [.register destination, .register source]⟩
  | pcRelativeLoad data offset =>
    accessLine (.load .word) data .pc (.number false (wordOffset offset).toNat)
  | registerOffset access data base offset =>
    accessLine access data (.low base) (.register (.low offset))
  | immediateOffset width load data base offset =>
    accessLine (immediateAccess width load) data (.low base)
      (.number false (scaledOffset width offset).toNat)
  | spRelative load data offset =>
    accessLine (.ofWord load) data .sp (.number false (wordOffset offset).toNat)
  | loadAddress fromSp destination offset =>
    ⟨"add", [.register (.low destination), .register (if fromSp then .sp else .pc),
      .number false (wordOffset offset).toNat]⟩
  | adjustStack subtract amount =>
    ⟨"add", [.register .sp, .number subtract (4 * amount.toNat)]⟩
  | push extra list => ⟨"push", listOperands (pushTransfer extra list).registers⟩
  | pop extra list => ⟨"pop", listOperands (popTransfer extra list).registers⟩
  | multiple load base list =>
    ⟨if load then "ldmia" else "stmia",
      .base (.low base) :: listOperands (multipleTransfer load base list).registers⟩
  | conditionalBranch condition offset =>
    ⟨"b" ++ condition.text, [.address (conditionalTarget address offset)]⟩
  | softwareInterrupt comment => ⟨"swi", [.number false comment.toNat]⟩
  | branch offset => ⟨"b", [.address (branchTarget address offset)]⟩
  | callFirst offset => ⟨"bl_1", [.address (callBase address offset)]⟩
  | callSecond offset => ⟨"bl_2", [.number false (callLow offset).toNat]⟩

/-- A field that is written as an immediate. -/
theorem operands?_field {w : Nat} (field : BitVec w) (h : w ≤ 32) :
    operands? (Numeral.immediate field.toNat) = some [.number false field.toNat] := by
  have hlt : field.toNat < 2 ^ 32 :=
    Nat.lt_of_lt_of_le field.isLt (Nat.pow_le_pow_right (by decide) h)
  exact operands?_immediate hlt

theorem operands?_addressText {base offset : String} {bases offsets : List Operand}
    (hb : operands? base = some bases) (ho : operands? offset = some offsets) :
    operands? (addressText base offset) = some (bases ++ offsets) :=
  operands?_close (operands?_gap (by decide) (operands?_open (by decide) hb) ho) (by decide)

theorem operands?_wordOffset (offset : BitVec 8) :
    operands? (wordOffsetText offset) = some [.number false (wordOffset offset).toNat] :=
  operands?_field _ (by decide)

theorem shiftAmount_le (kind : ShiftKind) (amount : BitVec 5) : shiftAmount kind amount ≤ 32 := by
  have hlt := amount.isLt
  unfold shiftAmount
  cases kind
  all_goals
    dsimp only
    try split_ifs
    all_goals omega

/-- The text of an instruction reads as its line. -/
theorem ofText?_text (instruction : ThumbInstruction) (address : Word) :
    Line.ofText? (instruction.text address) = some (instruction.line address) := by
  have hlow (register : LowRegister) :
      operands? (text.low register) = some [.register (.low register)] :=
    operands?_register (.low register)
  have haccess (access : Access) : IsWord access.text := by
    rcases access with (_ | _ | _ | _ | _) | (_ | _ | _) <;> decide
  cases instruction with
  | shiftedMove kind amount source destination =>
    have hm : IsWord kind.text := by
      cases kind <;> decide
    have hline := Line.ofText?_three hm (hlow destination) (hlow source)
      (operands?_amount (shiftAmount_le kind amount))
    -- the text has the separator and the mark of the immediate in one literal
    have hmark (start : String) : start ++ ", " ++ "#" = start ++ ", #" := String.append_assoc
    rw [← String.append_assoc, hmark] at hline
    exact hline
  | addSubtract subtract operand source destination =>
    have hm : IsWord (if subtract then "sub" else "add") := by
      cases subtract <;> decide
    have hoperand : operands? operand.text = some [smallOperand operand] := by
      cases operand with
      | register source => exact hlow source
      | immediate value => exact operands?_field value (by decide)
    exact Line.ofText?_three hm (hlow destination) (hlow source) hoperand
  | immediate operation destination value =>
    have hm : IsWord operation.alu.text := by
      cases operation <;> decide
    exact Line.ofText?_two hm (hlow destination) (operands?_field value (by decide))
  | alu operation source destination =>
    have hm : IsWord operation.text := by
      rcases operation with operation | kind | _ | _
      · cases operation <;> decide
      · cases kind <;> decide
      · decide
      · decide
    exact Line.ofText?_two hm (hlow destination) (hlow source)
  | highRegister operation source destination =>
    have hm : IsWord (highMnemonic operation) := by
      cases operation <;> decide
    have hone := Line.ofText?_one hm (operands?_register source)
    have hboth := Line.ofText?_two hm (operands?_register destination) (operands?_register source)
    cases operation with
    | exchange => exact hone
    | add | compare | move => exact hboth
  | pcRelativeLoad data offset =>
    -- a mnemonic that is known is one literal with the blank behind it; the two lines are the same
    -- by evaluation
    have hline := Line.ofText?_two (show IsWord "ldr" by decide) (hlow data)
      (operands?_addressText (operands?_register .pc) (operands?_wordOffset offset))
    exact hline
  | registerOffset access data base offset =>
    exact Line.ofText?_two (haccess access) (hlow data)
      (operands?_addressText (hlow base) (hlow offset))
  | immediateOffset width load data base offset =>
    exact Line.ofText?_two (haccess (immediateAccess width load)) (hlow data)
      (operands?_addressText (hlow base) (operands?_field (scaledOffset width offset) (by decide)))
  | spRelative load data offset =>
    exact Line.ofText?_two (haccess (.ofWord load)) (hlow data)
      (operands?_addressText (operands?_register .sp) (operands?_wordOffset offset))
  | loadAddress fromSp destination offset =>
    have hbase : operands? (if fromSp then "sp" else "pc") =
        some [.register (if fromSp then .sp else .pc)] := by
      cases fromSp
      · exact operands?_register .pc
      · exact operands?_register .sp
    have hline := Line.ofText?_three (show IsWord "add" by decide) (hlow destination) hbase
      (operands?_wordOffset offset)
    exact hline
  | adjustStack subtract amount =>
    have hlt : 4 * amount.toNat < 16 ^ 8 := by
      have := amount.isLt
      omega
    have hoffset := operands?_signedImmediate (!subtract) hlt
    rw [Bool.not_not] at hoffset
    have hline := Line.ofText?_two (show IsWord "add" by decide) (operands?_register .sp) hoffset
    exact hline
  | push extra list =>
    have hline := Line.ofText?_one (show IsWord "push" by decide)
      (operands?_registerList (pushTransfer extra list).registers)
    exact hline
  | pop extra list =>
    have hline := Line.ofText?_one (show IsWord "pop" by decide)
      (operands?_registerList (popTransfer extra list).registers)
    exact hline
  | multiple load base list =>
    have hm : IsWord (if load then "ldmia" else "stmia") := by
      cases load <;> decide
    have hline := Line.ofText?_two hm (operands?_base (.low base))
      (operands?_registerList (multipleTransfer load base list).registers)
    have hmark (start : String) : start ++ "!" ++ ", " = start ++ "!, " := String.append_assoc
    rw [← String.append_assoc, hmark] at hline
    exact hline
  | conditionalBranch condition offset =>
    have hm : IsWord ("b" ++ condition.text) :=
      IsWord.append (by decide) (lacks_conditionText condition)
    exact Line.ofText?_one hm (operands?_address (conditionalTarget address offset))
  | softwareInterrupt comment =>
    have hline := Line.ofText?_one (show IsWord "swi" by decide)
      (operands?_field comment (by decide))
    exact hline
  | branch offset =>
    have hline := Line.ofText?_one (show IsWord "b" by decide)
      (operands?_address (branchTarget address offset))
    exact hline
  | callFirst offset =>
    have hline := Line.ofText?_one (show IsWord "bl_1" by decide)
      (operands?_address (callBase address offset))
    exact hline
  | callSecond offset =>
    have hline := Line.ofText?_one (show IsWord "bl_2" by decide)
      (operands?_field (callLow offset) (by decide))
    exact hline

/-! ### Reading the line -/

/-- The kind of shift with a mnemonic. -/
def shiftKind? (mnemonic : String) : Option ShiftKind :=
  [ShiftKind.lsl, .lsr, .asr, .ror].find? (·.text == mnemonic)

/-- The access with a mnemonic. -/
def access? (mnemonic : String) : Option Access :=
  [Access.load .byte, .load .halfword, .load .word, .load .signedByte, .load .signedHalfword,
    .store .byte, .store .halfword, .store .word].find? (·.text == mnemonic)

/-- The width and the direction of an access without sign extension. -/
def widthAndLoad? : Access → Option (Width × Bool)
  | .load .byte => some (.byte, true)
  | .load .halfword => some (.halfword, true)
  | .load .word => some (.word, true)
  | .store width => some (width, false)
  | _ => none

/-- The operation with an immediate that has a mnemonic. -/
def immediateOperation? (mnemonic : String) : Option ImmediateOperation :=
  [ImmediateOperation.move, .compare, .add, .subtract].find? (·.alu.text == mnemonic)

/-- The operation between two low registers with a mnemonic. -/
def registerOperation? (mnemonic : String) : Option RegisterOperation :=
  ((List.finRange 16).map fun code => registerOperation (.ofFin code)).find? (·.text == mnemonic)

/-- The list of low registers among operands. -/
def list (operands : List Operand) : BitVec 16 :=
  BlockTransfer.field (operands.flatMap Operand.registers)

/-- An instruction with a list of registers. -/
def ofList? (line : Line) : Option ThumbInstruction :=
  if line.mnemonic = "push" then
    some (.push ((list line.operands).getLsbD 14) ((list line.operands).extractLsb' 0 8))
  else if line.mnemonic = "pop" then
    some (.pop ((list line.operands).getLsbD 15) ((list line.operands).extractLsb' 0 8))
  else match line.operands with
    | .base (.low base) :: operands =>
      some (.multiple (line.mnemonic == "ldmia") base ((list operands).extractLsb' 0 8))
    | _ => none

/-- An instruction whose operands are three low registers. -/
def ofRegisters? (mnemonic : String) (first second third : LowRegister) :
    Option ThumbInstruction :=
  if mnemonic = "add" ∨ mnemonic = "sub" then
    some (.addSubtract (mnemonic == "sub") (.register third) second first)
  else (access? mnemonic).map (.registerOffset · first second third)

/-- An instruction whose operands are two low registers and a number. -/
def ofScaled? (mnemonic : String) (first second : LowRegister) (value : Nat) :
    Option ThumbInstruction :=
  if mnemonic = "add" ∨ mnemonic = "sub" then
    some (.addSubtract (mnemonic == "sub") (.immediate (.ofNat 3 value)) second first)
  else match shiftKind? mnemonic with
    | some kind => some (.shiftedMove kind (.ofNat 5 value) second first)
    | none => do
      let (width, load) ← widthAndLoad? (← access? mnemonic)
      return .immediateOffset width load first second (.ofNat 5 (value / width.bytes))

/-- An instruction whose operands are a low register, one that is not low, and a number. -/
def ofBased? (mnemonic : String) (first : LowRegister) (base : Register) (value : Nat) :
    ThumbInstruction :=
  if mnemonic = "add" then .loadAddress (base == .sp) first (.ofNat 8 (value / 4))
  else if base = .sp then .spRelative (mnemonic == "ldr") first (.ofNat 8 (value / 4))
  else .pcRelativeLoad first (.ofNat 8 (value / 4))

/-- An instruction with three operands. -/
def ofTriple? (mnemonic : String) : Register → Register → Operand → Option ThumbInstruction
  | .low first, .low second, .register (.low third) => ofRegisters? mnemonic first second third
  | .low first, .low second, .number false value => ofScaled? mnemonic first second value
  | .low first, base, .number false value => some (ofBased? mnemonic first base value)
  | _, _, _ => none

/-- An instruction whose operands are two registers. -/
def ofPair? (mnemonic : String) (first second : Register) : Option ThumbInstruction :=
  if mnemonic = "add" then some (.highRegister .add second first)
  else if mnemonic = "cmp" then some (.highRegister .compare second first)
  else if mnemonic = "mov" then some (.highRegister .move second first)
  else match first, second with
    | .low first, .low second => (registerOperation? mnemonic).map (.alu · second first)
    | _, _ => none

/-- An instruction whose operands are a register and a number. -/
def ofImmediate? (mnemonic : String) (minus : Bool) (value : Nat) :
    Register → Option ThumbInstruction
  | .sp => some (.adjustStack minus (.ofNat 7 (value / 4)))
  | .low destination =>
    (immediateOperation? mnemonic).map (.immediate · destination (.ofNat 8 value))
  | _ => none

/-- An instruction whose operand is an address, from the distance to the program counter. -/
def ofDistance? (mnemonic : String) (distance : Word) : Option ThumbInstruction :=
  if mnemonic = "b" then some (.branch (distance.extractLsb' 1 11))
  else if mnemonic = "bl_1" then some (.callFirst (distance.extractLsb' 12 11))
  else match mnemonic.toList with
    | 'b' :: suffix =>
      (Condition.ofText? suffix).map (.conditionalBranch · (distance.extractLsb' 1 8))
    | _ => none

/-- The instruction that a line at an address says. -/
def ofLine? (address : Word) (line : Line) : Option ThumbInstruction :=
  ofList? line <|> match line.operands with
    | [.register first, .register second, third] => ofTriple? line.mnemonic first second third
    | [.register first, .register second] => ofPair? line.mnemonic first second
    | [.register first, .number minus value] => ofImmediate? line.mnemonic minus value first
    | [.register source] => some (.highRegister .exchange source (.low .unused))
    | [.number _ value] =>
      if line.mnemonic = "swi" then some (.softwareInterrupt (.ofNat 8 value))
      else some (.callSecond (.ofNat 11 (value / 2)))
    | [.address target] => ofDistance? line.mnemonic (target - (address + 4))
    | _ => none

/-- The one of the instructions with the same text that its line is read back as. -/
def plain : ThumbInstruction → ThumbInstruction
  | alu (.process .cmp) source destination =>
    highRegister .compare (.low source) (.low destination)
  | highRegister .exchange source _ => highRegister .exchange source (.low .unused)
  | instruction => instruction

/-- What an opcode says that its format alone does not. -/
def Decoded : ThumbInstruction → Prop
  | alu operation _ _ => ∃ code, operation = registerOperation code
  | conditionalBranch condition _ => condition ≠ .always
  | _ => True

/-! ### Fields read back -/

theorem ofNat_toNat_field {w : Nat} (field : BitVec w) : BitVec.ofNat w field.toNat = field := by
  rw [BitVec.ofNat_toNat, BitVec.setWidth_eq]

theorem ofNat_wordOffset (offset : BitVec 8) :
    BitVec.ofNat 8 ((wordOffset offset).toNat / 4) = offset := by
  have hlt := offset.isLt
  have hwords : (wordOffset offset).toNat = 4 * offset.toNat := by
    unfold wordOffset
    rw [BitVec.toNat_setWidth, toNat_append_zero]
    omega
  rw [hwords, Nat.mul_div_cancel_left _ (by decide), ofNat_toNat_field]

theorem ofNat_scaledOffset (width : Width) (offset : BitVec 5) :
    BitVec.ofNat 5 ((scaledOffset width offset).toNat / width.bytes) = offset := by
  have hlt := offset.isLt
  have hscaled : (scaledOffset width offset).toNat = offset.toNat * width.bytes := by
    unfold scaledOffset
    rw [BitVec.toNat_mul, BitVec.toNat_setWidth, BitVec.toNat_ofNat]
    cases width <;> simp only [Width.bytes] <;> omega
  have hpositive : 0 < width.bytes := by
    cases width <;> decide
  rw [hscaled, Nat.mul_div_cancel _ hpositive, ofNat_toNat_field]

theorem ofNat_shiftAmount (kind : ShiftKind) (amount : BitVec 5) :
    BitVec.ofNat 5 (shiftAmount kind amount) = amount := by
  have hamount := ofNat_toNat_field amount
  unfold shiftAmount
  cases kind with
  | lsl | ror => exact hamount
  | lsr | asr =>
    dsimp only
    split_ifs with hzero
    · exact hzero.symm
    · exact hamount

theorem ofNat_callLow (offset : BitVec 11) :
    BitVec.ofNat 11 ((callLow offset).toNat / 2) = offset := by
  have hlt := offset.isLt
  have hdouble : (callLow offset).toNat = 2 * offset.toNat := by
    unfold callLow
    rw [BitVec.toNat_setWidth, toNat_append_zero]
    omega
  rw [hdouble, Nat.mul_div_cancel_left _ (by decide), ofNat_toNat_field]

/-- A field that has been scaled and extended with its sign. -/
theorem extractLsb'_signExtend {n k : Nat} (field : BitVec n) (h : n + k ≤ 32) :
    ((field ++ 0#k).signExtend 32).extractLsb' k n = field := by
  apply BitVec.eq_of_getLsbD_eq
  intro i hi
  rw [BitVec.getLsbD_extractLsb', BitVec.getLsbD_signExtend, BitVec.getLsbD_append,
    if_pos (by omega : k + i < n + k), if_neg (by omega : ¬k + i < k), decide_eq_true hi,
    decide_eq_true (by omega : k + i < 32), Nat.add_sub_cancel_left]
  rfl

theorem list_registers (transfer : BlockTransfer) :
    list (listOperands transfer.registers) = transfer.list := by
  unfold list
  rw [registers_listOperands, BlockTransfer.field_registers]

theorem getLsbD_pushTransfer (extra : Bool) (registers : BitVec 8) :
    (pushTransfer extra registers).list.getLsbD 14 = extra := by
  show (0#1 ++ BitVec.ofBool extra ++ 0#6 ++ registers).getLsbD 14 = extra
  rw [BitVec.getLsbD_append, BitVec.getLsbD_append, BitVec.getLsbD_append]
  cases extra <;> rfl

theorem getLsbD_popTransfer (extra : Bool) (registers : BitVec 8) :
    (popTransfer extra registers).list.getLsbD 15 = extra := by
  show (BitVec.ofBool extra ++ 0#7 ++ registers).getLsbD 15 = extra
  rw [BitVec.getLsbD_append, BitVec.getLsbD_append]
  cases extra <;> rfl

theorem extractLsb'_multipleTransfer (load : Bool) (base : LowRegister) (registers : BitVec 8) :
    (multipleTransfer load base registers).list.extractLsb' 0 8 = registers := by
  show (registers.setWidth 16).extractLsb' 0 8 = registers
  ext i hi
  rw [BitVec.getElem_extractLsb', BitVec.getLsbD_setWidth, Nat.zero_add,
    decide_eq_true (by omega), Bool.true_and, BitVec.getLsbD_eq_getElem]

/-- The line of an instruction says it again, but for what its text does not show. -/
theorem ofLine?_line {instruction : ThumbInstruction} (h : instruction.Decoded) (address : Word) :
    ofLine? address (instruction.line address) = some instruction.plain := by
  have hdistance (distance : Word) : address + 4 + distance - (address + 4) = distance := by
    rw [BitVec.add_comm, BitVec.add_sub_cancel]
  cases instruction with
  | shiftedMove kind amount source destination =>
    have hamount := ofNat_shiftAmount kind amount
    cases kind
    all_goals
      show some (shiftedMove _ (.ofNat 5 _) source destination) = _
      rw [hamount]
      rfl
  | addSubtract subtract operand source destination =>
    cases operand with
    | register second => cases subtract <;> rfl
    | immediate value =>
      have hvalue := ofNat_toNat_field value
      cases subtract
      all_goals
        show some (addSubtract _ (.immediate (.ofNat 3 _)) source destination) = _
        rw [hvalue]
        rfl
  | immediate operation destination value =>
    have hvalue := ofNat_toNat_field value
    cases operation
    all_goals
      show some (immediate _ destination (.ofNat 8 _)) = _
      rw [hvalue]
      rfl
  | alu operation source destination =>
    obtain ⟨code, hcode⟩ := h
    rcases operation with operation | kind | _ | _
    · cases operation
      -- these have no code
      case add | sub | rsb | rsc | teq | mov => exact absurd hcode (by revert code; decide)
      all_goals rfl
    · cases kind <;> rfl
    · rfl
    · rfl
  | highRegister operation source destination => cases operation <;> rfl
  | pcRelativeLoad data offset =>
    show some (pcRelativeLoad data (.ofNat 8 ((wordOffset offset).toNat / 4))) = _
    rw [ofNat_wordOffset]
    rfl
  | registerOffset access data base offset =>
    rcases access with (_ | _ | _ | _ | _) | (_ | _ | _)
    all_goals rfl
  | immediateOffset width load data base offset =>
    have hoffset := ofNat_scaledOffset width offset
    cases width <;> cases load
    all_goals
      show some (immediateOffset _ _ data base (.ofNat 5 (_ / _))) = _
      rw [hoffset]
      rfl
  | spRelative load data offset =>
    have hoffset := ofNat_wordOffset offset
    cases load
    all_goals
      show some (spRelative _ data (.ofNat 8 (_ / 4))) = _
      rw [hoffset]
      rfl
  | loadAddress fromSp destination offset =>
    have hoffset := ofNat_wordOffset offset
    cases fromSp
    all_goals
      show some (loadAddress _ destination (.ofNat 8 (_ / 4))) = _
      rw [hoffset]
      rfl
  | adjustStack subtract amount =>
    show some (adjustStack subtract (.ofNat 7 (4 * amount.toNat / 4))) = _
    rw [Nat.mul_div_cancel_left _ (by decide), ofNat_toNat_field]
    rfl
  | push extra registers =>
    show some (push ((list (listOperands _)).getLsbD 14)
      ((list (listOperands _)).extractLsb' 0 8)) = _
    rw [list_registers, getLsbD_pushTransfer]
    exact congrArg (some ∘ push extra) BitVec.extractLsb'_append_eq_right
  | pop extra registers =>
    show some (pop ((list (listOperands _)).getLsbD 15)
      ((list (listOperands _)).extractLsb' 0 8)) = _
    rw [list_registers, getLsbD_popTransfer]
    exact congrArg (some ∘ pop extra) BitVec.extractLsb'_append_eq_right
  | multiple load base registers =>
    have hlist := extractLsb'_multipleTransfer load base registers
    rw [← list_registers] at hlist
    cases load
    all_goals
      show some (multiple _ base ((list (listOperands _)).extractLsb' 0 8)) = _
      rw [hlist]
      rfl
  | conditionalBranch condition offset =>
    have hm : "b" ++ condition.text ≠ "push" ∧ "b" ++ condition.text ≠ "pop" ∧
        "b" ++ condition.text ≠ "b" ∧ "b" ++ condition.text ≠ "bl_1" := by
      cases condition
      case always => exact absurd rfl h
      all_goals decide
    obtain ⟨hpush, hpop, hbranch, hcall⟩ := hm
    have hlist : ofList? ((conditionalBranch condition offset).line address) = none :=
      (if_neg hpush).trans (if_neg hpop)
    have htarget : ofDistance? ("b" ++ condition.text)
        (conditionalTarget address offset - (address + 4)) =
          some (conditionalBranch condition offset) := by
      unfold ofDistance? conditionalTarget
      rw [if_neg hbranch, if_neg hcall, hdistance, String.toList_append]
      show Option.map _ (Condition.ofText? condition.text.toList) = _
      rw [Condition.ofText?_text]
      exact congrArg (some ∘ conditionalBranch condition)
        (extractLsb'_signExtend offset (by decide))
    unfold ofLine?
    rw [hlist]
    exact htarget
  | softwareInterrupt comment =>
    show some (softwareInterrupt (.ofNat 8 comment.toNat)) = _
    rw [ofNat_toNat_field]
    rfl
  | branch offset =>
    show some (branch ((address + 4 + branchDistance offset - (address + 4)).extractLsb' 1 11)) = _
    rw [hdistance]
    exact congrArg (some ∘ branch) (extractLsb'_signExtend offset (by decide))
  | callFirst offset =>
    show some (callFirst ((address + 4 + callHigh offset - (address + 4)).extractLsb' 12 11)) = _
    rw [hdistance]
    exact congrArg (some ∘ callFirst) (extractLsb'_signExtend offset (by decide))
  | callSecond offset =>
    show some (callSecond (.ofNat 11 ((callLow offset).toNat / 2))) = _
    rw [ofNat_callLow]
    rfl

/-! ### Opcodes that are written alike -/

variable {opcode : Halfword} {instruction : ThumbInstruction}

/-- The condition code "always" is no code of a conditional branch. -/
theorem condition_ne_always (h : ThumbKind.ofOpcode opcode = .conditionalBranch) :
    Condition.ofField (opcode.extractLsb' 8 4) ≠ .always := by
  have hbyte : ∀ byte : BitVec 8, ThumbKind.ofHighByte byte = .conditionalBranch →
      Condition.ofField (byte.extractLsb' 0 4) ≠ .always := by
    decide
  have hfield : (opcode.extractLsb' 8 8).extractLsb' 0 4 = opcode.extractLsb' 8 4 := by
    ext i hi
    simp
    omega
  rw [← hfield]
  exact hbyte _ h

theorem decoded_of_ofOpcode? (h : ofOpcode? opcode = some instruction) : instruction.Decoded := by
  unfold ofOpcode? at h
  cases hk : ThumbKind.ofOpcode opcode
  all_goals
    rw [hk] at h
    dsimp only at h
  case alu =>
    cases h
    exact ⟨_, rfl⟩
  case conditionalBranch =>
    cases h
    -- an opcode with `always` for its condition is of another kind
    exact condition_ne_always hk
  case pushPop | longBranch =>
    split_ifs at h
    all_goals
      cases h
      trivial
  case undefined => cases h
  all_goals
    cases h
    trivial

theorem execute_plain (instruction : ThumbInstruction) :
    instruction.plain.execute = instruction.execute := by
  unfold plain
  split
  all_goals rfl

/-- The only opcode of an instruction with a list of registers. -/
def listOpcode? : ThumbInstruction → Option Halfword
  | push extra list => some (0b1011010#7 ++ BitVec.ofBool extra ++ list)
  | pop extra list => some (0b1011110#7 ++ BitVec.ofBool extra ++ list)
  | multiple load base list =>
    some (0b1100#4 ++ BitVec.ofBool load ++ (.ofFin base : BitVec 3) ++ list)
  | _ => none

theorem opcode_eq_bytes (opcode : Halfword) :
    opcode.extractLsb' 8 8 ++ opcode.extractLsb' 0 8 = opcode := by
  apply BitVec.eq_of_getLsbD_eq
  intro i hi
  rw [BitVec.getLsbD_append]
  split_ifs with hlow
  · rw [BitVec.getLsbD_extractLsb', decide_eq_true hlow, Nat.zero_add, Bool.true_and]
  · rw [BitVec.getLsbD_extractLsb', decide_eq_true (by omega), Bool.true_and,
      Nat.add_sub_cancel' (by omega)]

theorem listOpcode?_of_ofOpcode? (h : ofOpcode? opcode = some instruction) {other : Halfword}
    (hl : instruction.listOpcode? = some other) : other = opcode := by
  -- the upper byte is known from its kind but for the bits that the instruction keeps
  have hpair : ∀ byte : BitVec 8, ThumbKind.ofHighByte byte = .pushPop →
      byte = (if byte.getLsbD 3 then 0b1011110#7 else 0b1011010#7) ++
        BitVec.ofBool (byte.getLsbD 0) := by
    decide
  have hmultiple : ∀ byte : BitVec 8, ThumbKind.ofHighByte byte = .multiple →
      byte = 0b1100#4 ++ BitVec.ofBool (byte.getLsbD 3) ++ byte.extractLsb' 0 3 := by
    decide
  have hbit (i : Nat) (hi : i < 8) :
      (opcode.extractLsb' 8 8).getLsbD i = opcode.getLsbD (8 + i) := by
    rw [BitVec.getLsbD_extractLsb', decide_eq_true hi, Bool.true_and]
  have hbase : (opcode.extractLsb' 8 8).extractLsb' 0 3 = opcode.extractLsb' 8 3 := by
    ext i hi
    simp
    omega
  unfold ofOpcode? at h
  cases hk : ThumbKind.ofOpcode opcode
  all_goals
    rw [hk] at h
    dsimp only at h
  case pushPop =>
    have hbyte := hpair _ hk
    rw [hbit 3 (by decide), hbit 0 (by decide)] at hbyte
    split_ifs at h with hpop
    · cases h
      cases hl
      rw [if_pos hpop] at hbyte
      exact (congrArg (· ++ _) hbyte.symm).trans (opcode_eq_bytes opcode)
    · cases h
      cases hl
      rw [if_neg hpop] at hbyte
      exact (congrArg (· ++ _) hbyte.symm).trans (opcode_eq_bytes opcode)
  case multiple =>
    have hbyte := hmultiple _ hk
    rw [hbit 3 (by decide), hbase] at hbyte
    cases h
    cases hl
    exact (congrArg (· ++ _) hbyte.symm).trans (opcode_eq_bytes opcode)
  -- no other instruction has a list
  case longBranch =>
    split_ifs at h
    all_goals
      cases h
      cases hl
  case undefined => cases h
  all_goals
    cases h
    cases hl

/-- A refused instruction has a list of registers, and is its own plain form. -/
theorem listOpcode?_of_refusal? {reason : Unpredictable} (h : instruction.refusal? = some reason) :
    (∃ other, instruction.listOpcode? = some other) ∧ instruction.plain = instruction := by
  cases instruction
  case push | pop | multiple => exact ⟨⟨_, rfl⟩, rfl⟩
  all_goals cases h

theorem refusal?_plain (instruction : ThumbInstruction) :
    instruction.plain.refusal? = instruction.refusal? := by
  unfold plain
  split
  all_goals rfl

/-- The text of an undefined opcode is that of no instruction, and shows the opcode. -/
theorem ofText?_undefined (opcode : Halfword) :
    Line.ofText? ("undefined 0x" ++ Numeral.hex 4 opcode.toNat) =
      some ⟨"undefined", [.address (opcode.setWidth 32)]⟩ := by
  have hlt : opcode.toNat < 16 ^ 4 := opcode.isLt
  have hline := Line.ofText?_one (show IsWord "undefined" by decide) (operands?_hex hlt)
  rw [← String.append_assoc, BitVec.ofNat_toNat] at hline
  exact hline

theorem ofLine?_undefined (address target : Word) :
    ofLine? address ⟨"undefined", [.address target]⟩ = none := by
  simp [ofLine?, ofList?, ofDistance?]

end ThumbInstruction

open ThumbInstruction in
/-- The line that the text of an opcode is. -/
theorem ofText?_disassembleThumb (opcode : Halfword) (address : Word) :
    Line.ofText? (disassembleThumb opcode address) = some (match ofOpcode? opcode with
      | some instruction => instruction.line address
      | none => ⟨"undefined", [.address (opcode.setWidth 32)]⟩) := by
  unfold disassembleThumb
  cases ofOpcode? opcode with
  | none => exact ofText?_undefined opcode
  | some instruction => exact instruction.ofText?_text address

open ThumbInstruction in
/-- Opcodes with the same text are the same, or say instructions that nothing refuses and that are
executed alike. -/
theorem eq_or_execute_eq_of_text_eq {a b : Halfword} {address : Word}
    (h : disassembleThumb a address = disassembleThumb b address) :
    a = b ∨ ∃ i j, ofOpcode? a = some i ∧ ofOpcode? b = some j ∧ i.refusal? = none ∧
      j.refusal? = none ∧ i.execute = j.execute := by
  have hlines := ofText?_disassembleThumb a address
  rw [h, ofText?_disassembleThumb] at hlines
  have hline := Option.some.inj hlines
  cases ha : ofOpcode? a with
  | none =>
    cases hb : ofOpcode? b with
    | none =>
      rw [ha, hb] at hline
      have htargets : b.setWidth 32 = a.setWidth 32 := by
        simpa using congrArg Line.operands hline
      have hsame := congrArg (BitVec.setWidth 16) htargets
      left
      simpa using hsame.symm
    | some j =>
      have hread := ofLine?_line (decoded_of_ofOpcode? hb) address
      rw [ha, hb] at hline
      rw [show j.line address = _ from hline, ofLine?_undefined] at hread
      cases hread
  | some i =>
    have hread := ofLine?_line (decoded_of_ofOpcode? ha) address
    rw [ha] at hline
    cases hb : ofOpcode? b with
    | none =>
      rw [hb] at hline
      rw [← show _ = i.line address from hline, ofLine?_undefined] at hread
      cases hread
    | some j =>
      rw [hb] at hline
      rw [← show j.line address = i.line address from hline,
        ofLine?_line (decoded_of_ofOpcode? hb) address] at hread
      have hplain : j.plain = i.plain := Option.some.inj hread
      have hrefusal : i.refusal? = j.refusal? := by
        rw [← refusal?_plain i, ← refusal?_plain j, hplain]
      cases hi : i.refusal? with
      | none =>
        refine .inr ⟨i, j, rfl, rfl, hi, hrefusal.symm.trans hi, ?_⟩
        rw [← execute_plain i, ← execute_plain j, hplain]
      | some reason =>
        -- a refused instruction has a single opcode
        obtain ⟨⟨other, hother⟩, hi'⟩ := listOpcode?_of_refusal? hi
        obtain ⟨-, hj'⟩ := listOpcode?_of_refusal? (hrefusal.symm.trans hi)
        obtain rfl : j = i := by
          rw [← hj', hplain, hi']
        left
        rw [← listOpcode?_of_ofOpcode? ha hother, ← listOpcode?_of_ofOpcode? hb hother]

/-- Opcodes that are written alike do alike.  From every processor and over every bus, two Thumb
opcodes with the same text at some address give the same result or fault and the same processor,
leave the bus in the same state, and put the same requests to it. -/
theorem executeThumb_eq_of_text_eq {a b : Halfword} {address : Word}
    (h : disassembleThumb a address = disassembleThumb b address) (c : Cpu) {σ : Type}
    (bus : Bus σ) (state : σ) :
    let left := (executeThumb a).runOn bus c state
    let right := (executeThumb b).runOn bus c state
    left.value = right.value ∧ left.state = right.state ∧ left.events = right.events := by
  obtain rfl | ⟨i, j, ha, hb, hi, hj, hexecute⟩ := eq_or_execute_eq_of_text_eq h
  · exact ⟨rfl, rfl, rfl⟩
  · have hleft := run_executeThumb (c := c) ha
    have hright := run_executeThumb (c := c) hb
    rw [hi, hexecute] at hleft
    rw [hj] at hright
    unfold StepM.runOn
    rw [hleft, hright]
    -- only the log records tell the opcodes apart
    exact ⟨rfl, rfl, rfl⟩

/-- A comparison of two low registers, in both of its formats. -/
theorem executeThumb_eq_of_text_eq_compare :
    disassembleThumb 0x4288 0 = "cmp r0, r1" ∧ disassembleThumb 0x4508 0 = "cmp r0, r1" ∧
      ((executeThumb 0x4288).runOn Memory.bus .reset { regions := [] }).value =
        ((executeThumb 0x4508).runOn Memory.bus .reset { regions := [] }).value := by
  have hleft : disassembleThumb 0x4288 0 = "cmp r0, r1" := by decide
  have hright : disassembleThumb 0x4508 0 = "cmp r0, r1" := by decide
  refine ⟨hleft, hright, ?_⟩
  exact (executeThumb_eq_of_text_eq (hleft.trans hright.symm) .reset Memory.bus _).1

end Armv4t

import Armv4t.Thumb.Instruction
import Armv4t.Proofs.Trapping.Arm

/-!
# Thumb instructions on a host that traps

A host finds what to do for a Thumb opcode in a table of 256 entries, by the high byte, and for the
operations between two low registers in a second table of 16.  Fields are taken out of the opcode as
halfwords and widened where they become operands.  Building the tables never traps, and every entry
of them follows the instruction of the opcode.
-/

namespace Armv4t.Trapping

open HostM

/-! ### Fields and results -/

/-- The number in bits of an opcode, as an operand. -/
def thumbField (opcode : Halfword) (first last : Nat) : Checked Word := do
  return (← getBits opcode first last).setWidth 32

/-- The register named by three bits from an offset on and a fourth bit elsewhere. -/
def highRegister (opcode : Halfword) (offset top : Nat) : Checked Register := do
  let low ← thumbField opcode offset (← addIndex offset 2)
  let high ← shl ((BitVec.ofBool (← getBit opcode top)).setWidth 32 : Word) 3
  registerOf (low ||| high)

/-- Gives a register a result and sets the flags after it. -/
def writeResult (destination : Register) (result : AluResult) : HostM Flow := do
  writeRegister destination result.value
  setFlagsAfter result
  return .next

/-- Sets the flags after a result, and gives it to a register unless the operation is a test. -/
def finish (operation : AluOperation) (destination : Register) (result : AluResult) :
    HostM Flow := do
  if operation.isTest then
    setFlagsAfter result
    return .next
  else
    writeResult destination result

/-- The program counter, rounded down to a word boundary where it lies two bytes above one. -/
def wordPc (cells : Cells) : Checked Word := do
  return (← cells.read .pc) &&& ~~~0b10

/-! ### Arithmetic -/

/-- Moves a register shifted by an immediate amount. -/
def thumbShiftedMove (opcode : Halfword) : HostM Flow := do
  let kind := shiftKindOf (← check (thumbField opcode 11 12))
  let amount ← check (thumbField opcode 6 10)
  let source ← look (·.read (← check (thumbRegister opcode 3)))
  let shifted ← check (shiftByImmediate kind source amount (← look Cells.carry))
  writeResult (← check (thumbRegister opcode 0)) shifted.result

/-- The second operand of an addition or subtraction. -/
def thumbSmallOperand (opcode : Halfword) : HostM Word := do
  if ← check (getBit opcode 10) then
    check (thumbField opcode 6 8)
  else
    look (·.read (← check (thumbRegister opcode 6)))

/-- Adds or subtracts a register or a small immediate. -/
def thumbAddSubtract (opcode : Halfword) : HostM Flow := do
  let first ← look (·.read (← check (thumbRegister opcode 3)))
  let second ← thumbSmallOperand opcode
  let subtract ← check (getBit opcode 9)
  let result ← check <|
    if subtract then subtractWithCarry first second true else addWithCarry first second false
  writeResult (← check (thumbRegister opcode 0)) result

/-- The operation of a code of the immediate format. -/
def thumbImmediateOperation (code : Halfword) : AluOperation :=
  match code.toNat with
  | 0b00 => .mov
  | 0b01 => .cmp
  | 0b10 => .add
  | _ => .sub

/-- Performs an operation between a register and an immediate. -/
def thumbImmediate (opcode : Halfword) : HostM Flow := do
  let operation := thumbImmediateOperation (← check (getBits opcode 11 12))
  let destination ← check (thumbRegister opcode 8)
  let value ← check (thumbField opcode 0 7)
  let first ← look (·.read destination)
  let result ← check (evaluate operation first ⟨value, none⟩ (← look Cells.carry))
  finish operation destination result

/-- The entries of the table of operations between two low registers. -/
inductive ThumbAluKind where
  | process
  | shift
  | negate
  | multiply
deriving DecidableEq, Repr

/-- The entry at an index. -/
def thumbAluKindOf (index : Nat) : ThumbAluKind :=
  match index &&& 0xF with
  | 0x2 | 0x3 | 0x4 | 0x7 => .shift
  | 0x9 => .negate
  | 0xD => .multiply
  | _ => .process

/-- The entries of all indices. -/
def thumbAluTable : Checked (Vector ThumbAluKind 16) :=
  table 16 fun index => return thumbAluKindOf index

/-- The operation of a code for which the table has no entry of its own. -/
def thumbAluOperation (code : Halfword) : AluOperation :=
  match code.toNat with
  | 0x0 => .and
  | 0x1 => .eor
  | 0x5 => .adc
  | 0x6 => .sbc
  | 0x8 => .tst
  | 0xA => .cmp
  | 0xB => .cmn
  | 0xC => .orr
  | 0xE => .bic
  | _ => .mvn

/-- The kind of shift of a code for which the table has a shift. -/
def thumbAluShift (code : Halfword) : ShiftKind :=
  match code.toNat with
  | 0x2 => .lsl
  | 0x3 => .lsr
  | 0x4 => .asr
  | _ => .ror

/-- Performs an operation between two low registers by its entry. -/
def thumbAluPerform (opcode : Halfword) : ThumbAluKind → HostM Flow
  | .process => do
    let operation := thumbAluOperation (← check (getBits opcode 6 9))
    let destination ← check (thumbRegister opcode 0)
    let first ← look (·.read destination)
    let second ← look (·.read (← check (thumbRegister opcode 3)))
    let result ← check (evaluate operation first ⟨second, none⟩ (← look Cells.carry))
    finish operation destination result
  | .shift => do
    let kind := thumbAluShift (← check (getBits opcode 6 9))
    let destination ← check (thumbRegister opcode 0)
    let amount ← look (·.read (← check (thumbRegister opcode 3)))
    charge 1
    let shifted ← check (shiftByRegister kind (← look (·.read destination)) amount)
    writeResult destination shifted.result
  | .negate => do
    let source ← look (·.read (← check (thumbRegister opcode 3)))
    let result ← check (subtractWithCarry 0 source true)
    writeResult (← check (thumbRegister opcode 0)) result
  | .multiply => do
    let destination ← check (thumbRegister opcode 0)
    let source ← look (·.read (← check (thumbRegister opcode 3)))
    let old ← look (·.read destination)
    multiply destination source old none true

/-- Performs an operation between two low registers. -/
def thumbAlu (opcode : Halfword) : HostM Flow := do
  let kinds ← check thumbAluTable
  thumbAluPerform opcode (← check (lookup kinds (← check (getBits opcode 6 9)).toNat))

/-- Performs an operation between any two registers. -/
def thumbHighRegister (opcode : Halfword) : HostM Flow := do
  let destination ← check (highRegister opcode 0 7)
  let source ← look (·.read (← check (highRegister opcode 3 6)))
  match (← check (getBits opcode 8 9)).toNat with
  | 0b00 =>
    let old ← look (·.read destination)
    writeOrBranch destination (old + source)
  | 0b01 =>
    let old ← look (·.read destination)
    setFlagsAfter (← check (subtractWithCarry old source true))
    return .next
  | 0b10 => writeOrBranch destination source
  | _ => branchExchange source

/-- Gives a register the sum of an immediate and the stack pointer or program counter. -/
def thumbLoadAddress (opcode : Halfword) : HostM Flow := do
  let fromSp ← check (getBit opcode 11)
  let base ← look fun cells => if fromSp then cells.read .sp else wordPc cells
  let offset ← check (shl (← check (thumbField opcode 0 7)) 2)
  writeRegister (← check (thumbRegister opcode 8)) (base + offset)
  return .next

/-- Moves the stack pointer. -/
def thumbAdjustStack (opcode : Halfword) : HostM Flow := do
  let distance ← check (shl (← check (thumbField opcode 0 6)) 2)
  let old ← look (·.read .sp)
  let subtract ← check (getBit opcode 7)
  writeRegister .sp (if subtract then old - distance else old + distance)
  return .next

/-! ### Transfers -/

/-- Performs a transfer without write-back at a positive offset. -/
def thumbTransfer (opcode : Halfword) (load : Bool) (format : LoadFormat) (base : Register)
    (baseAddress offset : Word) (data : Register) : HostM Flow :=
  DataTransfer.perform (opcode.setWidth 32) {
    load
    format
    data
    base
    baseAddress
    offset
    up := true
    indexing := .pre false
    exchange := false }

/-- Performs a transfer of the register in the lowest bits, with the base in the bits above. -/
def thumbLowTransfer (opcode : Halfword) (load : Bool) (format : LoadFormat) (offset : Word) :
    HostM Flow := do
  let base ← check (thumbRegister opcode 3)
  let address ← look (·.read base)
  thumbTransfer opcode load format base address offset (← check (thumbRegister opcode 0))

/-- Loads from an address by the program counter. -/
def thumbPcRelativeLoad (opcode : Halfword) : HostM Flow := do
  let base ← look wordPc
  let offset ← check (shl (← check (thumbField opcode 0 7)) 2)
  thumbTransfer opcode true .word .pc base offset (← check (thumbRegister opcode 8))

/-- Performs a transfer at an offset in a register. -/
def thumbRegisterOffset (opcode : Halfword) : HostM Flow := do
  let format : LoadFormat := if ← check (getBit opcode 10) then .byte else .word
  let load ← check (getBit opcode 11)
  let offset ← look (·.read (← check (thumbRegister opcode 6)))
  thumbLowTransfer opcode load format offset

/-- Performs a halfword or signed transfer at an offset in a register. -/
def thumbSignExtended (opcode : Halfword) : HostM Flow := do
  let sign ← check (getBit opcode 10)
  let half ← check (getBit opcode 11)
  let offset ← look (·.read (← check (thumbRegister opcode 6)))
  match sign, half with
  | false, false => thumbLowTransfer opcode false .halfword offset
  | false, true => thumbLowTransfer opcode true .halfword offset
  | true, false => thumbLowTransfer opcode true .signedByte offset
  | true, true => thumbLowTransfer opcode true .signedHalfword offset

/-- Performs a transfer of a byte or a word at an immediate offset. -/
def thumbImmediateOffset (opcode : Halfword) : HostM Flow := do
  let field ← check (thumbField opcode 6 10)
  let load ← check (getBit opcode 11)
  if ← check (getBit opcode 12) then
    thumbLowTransfer opcode load .byte field
  else
    thumbLowTransfer opcode load .word (← check (shl field 2))

/-- Performs a transfer of a halfword at an immediate offset. -/
def thumbHalfword (opcode : Halfword) : HostM Flow := do
  let load ← check (getBit opcode 11)
  let offset ← check (shl (← check (thumbField opcode 6 10)) 1)
  thumbLowTransfer opcode load .halfword offset

/-- Performs a transfer by the stack pointer. -/
def thumbSpRelative (opcode : Halfword) : HostM Flow := do
  let load ← check (getBit opcode 11)
  let base ← look (·.read .sp)
  let offset ← check (shl (← check (thumbField opcode 0 7)) 2)
  thumbTransfer opcode load .word .sp base offset (← check (thumbRegister opcode 8))

/-- Pushes or pops registers. -/
def thumbPushPop (opcode : Halfword) : HostM Flow := do
  let extra ← check (getBit opcode 8)
  let list ← check (getBits opcode 0 7)
  if ← check (getBit opcode 11) then
    blockTransfer (opcode.setWidth 32) {
      load := true
      base := .sp
      list := ← check (setBit list 15 extra)
      up := true
      pre := false
      writeBack := true
      mark := false }
  else
    blockTransfer (opcode.setWidth 32) {
      load := false
      base := .sp
      list := ← check (setBit list 14 extra)
      up := false
      pre := true
      writeBack := true
      mark := false }

/-- Loads or stores a list of registers. -/
def thumbMultiple (opcode : Halfword) : HostM Flow := do
  blockTransfer (opcode.setWidth 32) {
    load := ← check (getBit opcode 11)
    base := ← check (thumbRegister opcode 8)
    list := ← check (getBits opcode 0 7)
    up := true
    pre := false
    writeBack := true
    mark := false }

/-! ### Branches -/

/-- Branches if a condition holds. -/
def thumbConditionalBranch (opcode : Halfword) : HostM Flow := do
  let condition := conditionOf (← check (thumbField opcode 8 11))
  if condition.holds (← look Cells.flags) then
    let field ← check (shl (← check (getBits opcode 0 7)) 1)
    let distance ← check (signExtend field 9)
    branchTo ((← look (·.read .pc)) + distance)
  else
    return .next

/-- Branches. -/
def thumbBranch (opcode : Halfword) : HostM Flow := do
  let field ← check (shl (← check (getBits opcode 0 10)) 1)
  let distance ← check (signExtend field 12)
  branchTo ((← look (·.read .pc)) + distance)

/-- Performs either half of a call. -/
def thumbLongBranch (opcode : Halfword) : HostM Flow := do
  let field ← check (getBits opcode 0 10)
  let pc ← look (·.read .pc)
  if ← check (getBit opcode 11) then
    let link ← look (·.read .lr)
    let distance ← check (shl (field.setWidth 32 : Word) 1)
    writeRegister .lr ((pc - 2) ||| 1)
    branchTo (link + distance)
  else
    let distance ← check (shl (← check (signExtend field 11)) 12)
    writeRegister .lr (pc + distance)
    return .next

/-! ### Dispatch -/

/-- The formats of all high bytes. -/
def thumbTable : Checked (Vector ThumbKind 256) :=
  table 256 fun index => return .ofHighByte (.ofNat 8 index)

/-- Performs an opcode of a given format. -/
def thumbPerform (opcode : Halfword) : ThumbKind → HostM Flow
  | .shiftedMove => thumbShiftedMove opcode
  | .addSubtract => thumbAddSubtract opcode
  | .immediate => thumbImmediate opcode
  | .alu => thumbAlu opcode
  | .highRegister => thumbHighRegister opcode
  | .pcRelativeLoad => thumbPcRelativeLoad opcode
  | .registerOffset => thumbRegisterOffset opcode
  | .signExtended => thumbSignExtended opcode
  | .immediateOffset => thumbImmediateOffset opcode
  | .halfword => thumbHalfword opcode
  | .spRelative => thumbSpRelative opcode
  | .loadAddress => thumbLoadAddress opcode
  | .adjustStack => thumbAdjustStack opcode
  | .pushPop => thumbPushPop opcode
  | .multiple => thumbMultiple opcode
  | .conditionalBranch => thumbConditionalBranch opcode
  | .softwareInterrupt => do
    raise .softwareInterrupt
    return .jump
  | .branch => thumbBranch opcode
  | .longBranch => thumbLongBranch opcode
  | .undefined => refuseUndefined (opcode.setWidth 32)

/-- Performs what the table has for an opcode. -/
def thumbDispatch (opcode : Halfword) : HostM Flow := do
  let kinds ← check thumbTable
  thumbPerform opcode (← check (lookup kinds (← check (shr opcode 8)).toNat))

variable {α : Type} {cpu : Cpu} (opcode : Halfword)

/-! ### Following fields and results -/

theorem thumbField_eq_ok (first last length : Nat)
    (h : first + length = last + 1 ∧ 0 < length ∧ last < 16) :
    thumbField opcode first last = .ok ((opcode.extractLsb' first length).setWidth 32) := by
  have hbits := getBits_field opcode first last length (by omega)
  have hlength : length ≤ 16 := by omega
  simp only [thumbField, hbits, ok_bind, pure_eq_ok, setWidth_setWidth_halfword _ hlength]

theorem highRegister_eq_ok (offset top : Nat) (h : offset < 13 ∧ top < 16) :
    highRegister opcode offset top =
      .ok (ThumbInstruction.registerAt opcode offset (opcode.getLsbD top)) := by
  have hindex : addIndex offset 2 = .ok (offset + 2) :=
    addIndex_of_lt (by unfold indexLimit; omega)
  have hlow := thumbField_eq_ok opcode offset (offset + 2) 3 (by omega)
  have hshift (bit : Bool) : shl ((BitVec.ofBool bit).setWidth 32 : Word) 3 =
      .ok ((BitVec.ofBool bit).setWidth 32 <<< 3) := shl_of_lt (by decide)
  have hnumber : ∀ (low : BitVec 3) (bit : Bool),
      ((low.setWidth 32 : Word) ||| ((BitVec.ofBool bit).setWidth 32 <<< 3)).extractLsb' 0 4 =
        BitVec.ofBool bit ++ low := by
    decide
  simp only [highRegister, hindex, hlow, getBit_of_lt h.2, hshift, ok_bind, registerOf_eq_ok,
    hnumber, ThumbInstruction.registerAt]

theorem wordPc_cells : wordPc cpu.cells = .ok (ThumbInstruction.wordPc cpu) := by
  simp only [wordPc, Cells.read_cells, ok_bind, pure_eq_ok]
  rfl

/-- The host writes the register and the flags one after the other, the processor both at once. -/
theorem follows_writeResult (destination : LowRegister) (result : AluResult) :
    Follows cpu.cells cpu (writeResult (.low destination) result)
      (liftM (ThumbInstruction.writeResult destination result)) := by
  have hpc : Register.low destination ≠ .pc := nofun
  have hwrite := Cells.write_cells cpu (.low destination) result.value
  have hflags := Cells.withFlagsAfter_cells (cpu.write (.low destination) result.value) result
  simp only [writeResult, ThumbInstruction.writeResult, writeRegister, setFlagsAfter, if_neg hpc,
    liftM_bind, liftM_pure]
  exact follows_update hwrite (follows_update hflags (follows_modify (follows_pure Flow.next)))

theorem follows_finish (operation : AluOperation) (destination : LowRegister)
    (result : AluResult) :
    Follows cpu.cells cpu (finish operation (.low destination) result)
      (liftM (ThumbInstruction.finish operation destination result)) := by
  unfold finish ThumbInstruction.finish
  split_ifs
  · simp only [liftM_bind, liftM_pure]
    exact follows_bind (follows_setFlagsAfter result) fun _ c => follows_pure _
  · exact follows_writeResult destination result

/-! ### Following arithmetic -/

open ThumbInstruction in
theorem follows_thumbShiftedMove :
    Follows cpu.cells cpu (thumbShiftedMove opcode)
      (ThumbInstruction.shiftedMove (.ofField (opcode.extractLsb' 11 2)) (opcode.extractLsb' 6 5)
        (lowAt opcode 3) (lowAt opcode 0)).execute := by
  have hkind := thumbField_eq_ok opcode 11 12 2 (by decide)
  have hamount := thumbField_eq_ok opcode 6 10 5 (by decide)
  simp only [thumbShiftedMove, hkind, hamount, thumbRegister_of_lt, Nat.reduceLT, check_ok,
    pure_bind, shiftKindOf_field]
  refine follows_lookRead _ (follows_get (follows_look (Cells.carry_cells cpu) ?_))
  exact follows_check (shiftByImmediate_field _ _ _ _) (follows_writeResult _ _)

/-- The second operand of an addition or subtraction is a register or the field in its place. -/
theorem follows_thumbSmallOperand {f : Word → HostM α} {y : StepM α}
    (k : Follows cpu.cells cpu
      (f (if opcode.getLsbD 10 then (opcode.extractLsb' 6 3).setWidth 32
        else cpu.read (.low (ThumbInstruction.lowAt opcode 6)))) y) :
    Follows cpu.cells cpu (thumbSmallOperand opcode >>= f) y := by
  have hvalue := thumbField_eq_ok opcode 6 8 3 (by decide)
  simp only [thumbSmallOperand, getBit_of_lt, Nat.reduceLT, check_ok, pure_bind]
  by_cases himmediate : opcode.getLsbD 10 = true
  · simp only [himmediate, if_true, hvalue, check_ok, pure_bind] at k ⊢
    exact k
  · simp only [himmediate, if_false, Bool.false_eq_true, thumbRegister_of_lt, Nat.reduceLT,
      check_ok, pure_bind] at k ⊢
    exact follows_lookRead _ k

open ThumbInstruction in
theorem follows_thumbAddSubtract :
    Follows cpu.cells cpu (thumbAddSubtract opcode)
      (ThumbInstruction.addSubtract (opcode.getLsbD 9)
        (if opcode.getLsbD 10 then .immediate (opcode.extractLsb' 6 3)
          else .register (lowAt opcode 6))
        (lowAt opcode 3) (lowAt opcode 0)).execute := by
  -- the difference and the sum of whatever operands
  have hresult (a b : Word) :
      (if opcode.getLsbD 9 then subtractWithCarry a b true else addWithCarry a b false) =
        .ok (if opcode.getLsbD 9 then Armv4t.subtractWithCarry a b true
          else Armv4t.addWithCarry a b false) := by
    split_ifs
    · exact subtractWithCarry_eq_ok a b true
    · exact addWithCarry_eq_ok a b false
  simp only [thumbAddSubtract, getBit_of_lt, thumbRegister_of_lt, Nat.reduceLT, check_ok, pure_bind]
  refine follows_lookRead _ (follows_thumbSmallOperand opcode (follows_get ?_))
  refine follows_check (hresult _ _) ?_
  cases opcode.getLsbD 10
  · exact follows_writeResult _ _
  · exact follows_writeResult _ _

theorem thumbImmediateOperation_field : ∀ code : BitVec 2,
    thumbImmediateOperation (code.setWidth 16) =
      (ThumbInstruction.immediateOperation code).alu := by
  decide

open ThumbInstruction in
theorem follows_thumbImmediate :
    Follows cpu.cells cpu (thumbImmediate opcode)
      (ThumbInstruction.immediate (immediateOperation (opcode.extractLsb' 11 2)) (lowAt opcode 8)
        (opcode.extractLsb' 0 8)).execute := by
  have hcode := getBits_field opcode 11 12 2 (by decide)
  have hvalue := thumbField_eq_ok opcode 0 7 8 (by decide)
  simp only [thumbImmediate, hcode, hvalue, thumbRegister_of_lt, Nat.reduceLT, check_ok, pure_bind,
    thumbImmediateOperation_field]
  refine follows_lookRead _ (follows_get (follows_look (Cells.carry_cells cpu) ?_))
  exact follows_check (evaluate_eq_ok _ _ _ _) (follows_finish _ _ _)

/-- The operation that the entry for a code performs. -/
def thumbAluOf (code : Halfword) : ThumbAluKind → RegisterOperation
  | .process => .process (thumbAluOperation code)
  | .shift => .shift (thumbAluShift code)
  | .negate => .negate
  | .multiply => .multiply

theorem registerOperation_eq : ∀ code : BitVec 4,
    ThumbInstruction.registerOperation code =
      thumbAluOf (code.setWidth 16) (thumbAluKindOf (code.setWidth 16 : Halfword).toNat) := by
  decide

open ThumbInstruction in
/-- Every entry performs its operation. -/
theorem follows_thumbAluPerform (kind : ThumbAluKind) :
    Follows cpu.cells cpu (thumbAluPerform opcode kind)
      (ThumbInstruction.alu (thumbAluOf ((opcode.extractLsb' 6 4).setWidth 16) kind)
        (lowAt opcode 3) (lowAt opcode 0)).execute := by
  have hcode := getBits_field opcode 6 9 4 (by decide)
  -- the order in which the operands are read is the instruction's own, kind by kind
  cases kind with
  | process =>
    simp only [thumbAluPerform, hcode, thumbRegister_of_lt, Nat.reduceLT, check_ok, pure_bind,
      thumbAluOf, execute, executeAlu, liftM_bind]
    refine follows_lookRead _ (follows_lookRead _ (follows_get ?_))
    refine follows_look (Cells.carry_cells cpu) ?_
    exact follows_check (evaluate_eq_ok _ _ _ _) (follows_finish _ _ _)
  | shift =>
    simp only [thumbAluPerform, hcode, thumbRegister_of_lt, Nat.reduceLT, check_ok, pure_bind,
      thumbAluOf, execute, executeAlu, liftM_bind]
    refine follows_lookRead _ (follows_get (follows_charge_bind rfl ?_))
    refine follows_lookRead _ ?_
    exact follows_check (shiftByRegister_eq_ok _ _ _) (follows_writeResult _ _)
  | negate =>
    simp only [thumbAluPerform, thumbRegister_of_lt, Nat.reduceLT, check_ok, pure_bind,
      thumbAluOf, execute, executeAlu, liftM_bind]
    refine follows_lookRead _ (follows_get ?_)
    exact follows_check (subtractWithCarry_eq_ok _ _ _) (follows_writeResult _ _)
  -- the destination is the multiplier
  | multiply =>
    simp only [thumbAluPerform, thumbRegister_of_lt, Nat.reduceLT, check_ok, pure_bind,
      thumbAluOf, execute, executeAlu, liftM_bind]
    refine follows_lookRead _ (follows_lookRead _ (follows_get ?_))
    exact follows_multiply {
      destination := .low (lowAt opcode 0)
      multiplicand := .low (lowAt opcode 3)
      multiplier := .low (lowAt opcode 0)
      addend := none
      setFlags := true }

open ThumbInstruction in
theorem follows_thumbAlu :
    Follows cpu.cells cpu (thumbAlu opcode)
      (ThumbInstruction.alu (registerOperation (opcode.extractLsb' 6 4)) (lowAt opcode 3)
        (lowAt opcode 0)).execute := by
  have hcode := getBits_field opcode 6 9 4 (by decide)
  have htable : thumbAluTable = .ok (.ofFn fun index => thumbAluKindOf index) :=
    table_eq_ok fun _ => rfl
  have hlt : ((opcode.extractLsb' 6 4).setWidth 16).toNat < 16 := by
    rw [BitVec.toNat_setWidth_of_le (by decide)]
    exact BitVec.isLt _
  have hlookup : lookup (.ofFn fun index : Fin 16 => thumbAluKindOf index) _ = .ok _ :=
    lookup_of_lt hlt
  simp only [thumbAlu, htable, hcode, check_ok, pure_bind, registerOperation_eq]
  -- four bits are an index into the table
  refine follows_check hlookup ?_
  rw [Vector.getElem_ofFn]
  exact follows_thumbAluPerform opcode _

/-- The operations between any two registers, by code. -/
theorem highOperation_eq (code : BitVec 2) :
    ((code.setWidth 16 : Halfword).toNat = 0 ∧ ThumbInstruction.highOperation code = .add) ∨
      ((code.setWidth 16 : Halfword).toNat = 1 ∧ ThumbInstruction.highOperation code = .compare) ∨
      ((code.setWidth 16 : Halfword).toNat = 2 ∧ ThumbInstruction.highOperation code = .move) ∨
      ((code.setWidth 16 : Halfword).toNat = 3 ∧
        ThumbInstruction.highOperation code = .exchange) := by
  revert code
  decide

open ThumbInstruction in
theorem follows_thumbHighRegister :
    Follows cpu.cells cpu (thumbHighRegister opcode)
      (ThumbInstruction.highRegister (highOperation (opcode.extractLsb' 8 2))
        (registerAt opcode 3 (opcode.getLsbD 6)) (registerAt opcode 0 (opcode.getLsbD 7))).execute
      := by
  have hcode := getBits_field opcode 8 9 2 (by decide)
  have hdestination := highRegister_eq_ok opcode 0 7 (by decide)
  have hsource := highRegister_eq_ok opcode 3 6 (by decide)
  simp only [thumbHighRegister, hcode, hdestination, hsource, check_ok, pure_bind, execute,
    executeHigh, liftM_bind]
  generalize registerAt opcode 3 (opcode.getLsbD 6) = source
  generalize registerAt opcode 0 (opcode.getLsbD 7) = destination
  refine follows_lookRead _ (follows_get ?_)
  obtain ⟨hnumber, hoperation⟩ | ⟨hnumber, hoperation⟩ | ⟨hnumber, hoperation⟩ |
    ⟨hnumber, hoperation⟩ := highOperation_eq (opcode.extractLsb' 8 2)
  all_goals rw [hnumber, hoperation]
  -- an addition, a comparison, a move and an exchange
  · exact follows_lookRead _ (follows_writeOrBranch _ _)
  · simp only [liftM_bind, liftM_pure]
    refine follows_lookRead _ (follows_check (subtractWithCarry_eq_ok _ _ _) ?_)
    exact follows_bind (follows_setFlagsAfter _) fun _ c => follows_pure _
  · exact follows_writeOrBranch _ _
  · exact follows_branchExchange _

/-- A field of eight bits that counts words. -/
theorem shl_wordOffset : ∀ field : BitVec 8,
    shl (field.setWidth 32 : Word) 2 =
      .ok ((ThumbInstruction.wordOffset field).setWidth 32) := by
  decide

theorem follows_thumbLoadAddress :
    Follows cpu.cells cpu (thumbLoadAddress opcode)
      (ThumbInstruction.loadAddress (opcode.getLsbD 11) (ThumbInstruction.lowAt opcode 8)
        (opcode.extractLsb' 0 8)).execute := by
  have hfield := thumbField_eq_ok opcode 0 7 8 (by decide)
  -- the base is one of two registers that are read in different ways
  have hbase : (fun cells : Cells => if opcode.getLsbD 11 then cells.read .sp
      else wordPc cells) cpu.cells =
      .ok (if opcode.getLsbD 11 then cpu.read .sp else ThumbInstruction.wordPc cpu) := by
    change (if _ then _ else _) = _
    split_ifs
    · exact Cells.read_cells cpu .sp
    · exact wordPc_cells
  have hpc (register : LowRegister) : Register.low register ≠ .pc := nofun
  simp only [thumbLoadAddress, getBit_of_lt, hfield, shl_wordOffset, thumbRegister_of_lt,
    Nat.reduceLT, check_ok, pure_bind]
  refine follows_look hbase (follows_get ?_)
  exact follows_bind (follows_writeRegister_modify (hpc _) _) fun _ c => follows_pure _

theorem follows_thumbAdjustStack :
    Follows cpu.cells cpu (thumbAdjustStack opcode)
      (ThumbInstruction.adjustStack (opcode.getLsbD 7) (opcode.extractLsb' 0 7)).execute := by
  have hfield := thumbField_eq_ok opcode 0 6 7 (by decide)
  have hshift : shl ((opcode.extractLsb' 0 7).setWidth 32 : Word) 2 =
      .ok ((opcode.extractLsb' 0 7 ++ 0#2).setWidth 32) := by
    rw [shl_of_lt (by decide), shl_field]
  simp only [thumbAdjustStack, getBit_of_lt, hfield, hshift, Nat.reduceLT, check_ok, pure_bind]
  refine follows_lookRead .sp (follows_get ?_)
  exact follows_bind (follows_writeRegister_modify Register.sp_ne_pc _) fun _ c => follows_pure _

/-! ### Following transfers -/

/-- A transfer without write-back is never refused. -/
theorem follows_thumbTransfer (access : Access) (data : LowRegister) (base : Register)
    (address value : Word) (offset : Offset) :
    Follows cpu.cells cpu
      (thumbTransfer opcode (DataTransfer.ofAccess access).1 (DataTransfer.ofAccess access).2 base
        address value (.low data))
      ((ThumbInstruction.plainTransfer access (.low data) base offset).executeAt address value) :=
  follows_perform (ThumbInstruction.plainTransfer access (.low data) base offset) address value
    false (opcode.setWidth 32) fun _ _ => nofun

/-- A transfer of the register in the lowest bits, with the base in the bits above. -/
theorem follows_thumbLowTransfer {load : Bool} {format : LoadFormat} (access : Access)
    (h : DataTransfer.ofAccess access = (load, format)) {value : Word} {offset : Offset}
    (hvalue : offset.value cpu = value) :
    Follows cpu.cells cpu (thumbLowTransfer opcode load format value)
      (ThumbInstruction.plainTransfer access (.low (ThumbInstruction.lowAt opcode 0))
        (.low (ThumbInstruction.lowAt opcode 3)) offset).execute := by
  have htransfer (data : LowRegister) (base : Register) (address : Word) :
      Follows cpu.cells cpu _ _ :=
    follows_thumbTransfer opcode access data base address value offset
  subst hvalue
  rw [h] at htransfer
  simp only [thumbLowTransfer, thumbRegister_of_lt, Nat.reduceLT, check_ok, pure_bind]
  exact follows_lookRead _ (follows_get (htransfer _ _ _))

theorem follows_thumbPcRelativeLoad :
    Follows cpu.cells cpu (thumbPcRelativeLoad opcode)
      (ThumbInstruction.pcRelativeLoad (ThumbInstruction.lowAt opcode 8)
        (opcode.extractLsb' 0 8)).execute := by
  have hfield := thumbField_eq_ok opcode 0 7 8 (by decide)
  simp only [thumbPcRelativeLoad, hfield, shl_wordOffset, thumbRegister_of_lt, Nat.reduceLT,
    check_ok, pure_bind]
  refine follows_look wordPc_cells (follows_get ?_)
  exact follows_thumbTransfer opcode (.load .word) _ _ _ _ _

theorem follows_thumbRegisterOffset :
    Follows cpu.cells cpu (thumbRegisterOffset opcode)
      (ThumbInstruction.registerOffset
        (if opcode.getLsbD 10 then .ofByte (opcode.getLsbD 11) else .ofWord (opcode.getLsbD 11))
        (ThumbInstruction.lowAt opcode 0) (ThumbInstruction.lowAt opcode 3)
        (ThumbInstruction.lowAt opcode 6)).execute := by
  simp only [thumbRegisterOffset, getBit_of_lt, thumbRegister_of_lt, Nat.reduceLT, check_ok,
    pure_bind]
  refine follows_lookRead _ ?_
  exact follows_thumbLowTransfer opcode _ (ofAccess_byteOrWord _ _) rfl

theorem follows_thumbSignExtended :
    Follows cpu.cells cpu (thumbSignExtended opcode)
      (ThumbInstruction.registerOffset
        (ThumbInstruction.signExtendedAccess (opcode.getLsbD 11) (opcode.getLsbD 10))
        (ThumbInstruction.lowAt opcode 0) (ThumbInstruction.lowAt opcode 3)
        (ThumbInstruction.lowAt opcode 6)).execute := by
  simp only [thumbSignExtended, getBit_of_lt, thumbRegister_of_lt, Nat.reduceLT, check_ok,
    pure_bind]
  refine follows_lookRead _ ?_
  cases opcode.getLsbD 10 <;> cases opcode.getLsbD 11
  · exact follows_thumbLowTransfer opcode (.store .halfword) rfl rfl
  · exact follows_thumbLowTransfer opcode (.load .halfword) rfl rfl
  · exact follows_thumbLowTransfer opcode (.load .signedByte) rfl rfl
  · exact follows_thumbLowTransfer opcode (.load .signedHalfword) rfl rfl

/-- An offset that counts bytes. -/
theorem scaledOffset_byte : ∀ field : BitVec 5,
    (ThumbInstruction.scaledOffset .byte field).setWidth 32 = (field.setWidth 32 : Word) := by
  decide

/-- An offset that counts halfwords. -/
theorem shl_scaledOffset_halfword : ∀ field : BitVec 5, shl (field.setWidth 32 : Word) 1 =
    .ok ((ThumbInstruction.scaledOffset .halfword field).setWidth 32) := by
  decide

/-- An offset that counts words. -/
theorem shl_scaledOffset_word : ∀ field : BitVec 5, shl (field.setWidth 32 : Word) 2 =
    .ok ((ThumbInstruction.scaledOffset .word field).setWidth 32) := by
  decide

theorem follows_thumbImmediateOffset :
    Follows cpu.cells cpu (thumbImmediateOffset opcode)
      (ThumbInstruction.immediateOffset (if opcode.getLsbD 12 then .byte else .word)
        (opcode.getLsbD 11) (ThumbInstruction.lowAt opcode 0) (ThumbInstruction.lowAt opcode 3)
        (opcode.extractLsb' 6 5)).execute := by
  have hfield := thumbField_eq_ok opcode 6 10 5 (by decide)
  -- the two bits choose among the accesses of a byte and of a word
  have haccess (byte load : Bool) : DataTransfer.ofAccess
      (ThumbInstruction.immediateAccess (if byte then .byte else .word) load) =
      (load, if byte then .byte else .word) := by
    cases byte <;> cases load <;> rfl
  simp only [thumbImmediateOffset, getBit_of_lt, hfield, shl_scaledOffset_word,
    Nat.reduceLT, check_ok, pure_bind]
  have hopcode := haccess (opcode.getLsbD 12) (opcode.getLsbD 11)
  cases hbit : opcode.getLsbD 12
  · rw [hbit] at hopcode
    exact follows_thumbLowTransfer opcode _ hopcode rfl
  · rw [hbit] at hopcode
    exact follows_thumbLowTransfer opcode _ hopcode (scaledOffset_byte _)

theorem follows_thumbHalfword :
    Follows cpu.cells cpu (thumbHalfword opcode)
      (ThumbInstruction.immediateOffset .halfword (opcode.getLsbD 11)
        (ThumbInstruction.lowAt opcode 0) (ThumbInstruction.lowAt opcode 3)
        (opcode.extractLsb' 6 5)).execute := by
  have hfield := thumbField_eq_ok opcode 6 10 5 (by decide)
  have haccess (load : Bool) :
      DataTransfer.ofAccess (ThumbInstruction.immediateAccess .halfword load) =
        (load, .halfword) := by
    cases load <;> rfl
  simp only [thumbHalfword, getBit_of_lt, hfield, shl_scaledOffset_halfword, Nat.reduceLT,
    check_ok, pure_bind]
  exact follows_thumbLowTransfer opcode _ (haccess _) rfl

theorem follows_thumbSpRelative :
    Follows cpu.cells cpu (thumbSpRelative opcode)
      (ThumbInstruction.spRelative (opcode.getLsbD 11) (ThumbInstruction.lowAt opcode 8)
        (opcode.extractLsb' 0 8)).execute := by
  have hfield := thumbField_eq_ok opcode 0 7 8 (by decide)
  simp only [thumbSpRelative, getBit_of_lt, hfield, shl_wordOffset, thumbRegister_of_lt,
    Nat.reduceLT, check_ok, pure_bind]
  refine follows_lookRead .sp (follows_get ?_)
  cases opcode.getLsbD 11
  · exact follows_thumbTransfer opcode (.ofWord false) _ _ _ _ _
  · exact follows_thumbTransfer opcode (.ofWord true) _ _ _ _ _

/-- The list of a pop: the low registers and, above them, the program counter. -/
theorem setBit_popList : ∀ (extra : Bool) (list : BitVec 8),
    setBit (list.setWidth 16 : Halfword) 15 extra =
      .ok (ThumbInstruction.popTransfer extra list).list := by
  decide

/-- The list of a push: the low registers and, above them, the link register. -/
theorem setBit_pushList : ∀ (extra : Bool) (list : BitVec 8),
    setBit (list.setWidth 16 : Halfword) 14 extra =
      .ok (ThumbInstruction.pushTransfer extra list).list := by
  decide

theorem follows_thumbPushPop :
    Follows cpu.cells cpu (thumbPushPop opcode)
      (if opcode.getLsbD 11 then
        attempt (opcode.setWidth 32)
          (ThumbInstruction.pop (opcode.getLsbD 8) (opcode.extractLsb' 0 8)).refusal?
          (ThumbInstruction.pop (opcode.getLsbD 8) (opcode.extractLsb' 0 8)).execute
      else
        attempt (opcode.setWidth 32)
          (ThumbInstruction.push (opcode.getLsbD 8) (opcode.extractLsb' 0 8)).refusal?
          (ThumbInstruction.push (opcode.getLsbD 8) (opcode.extractLsb' 0 8)).execute) := by
  have hlist := getBits_field opcode 0 7 8 (by decide)
  simp only [thumbPushPop, getBit_of_lt, hlist, setBit_popList, setBit_pushList, Nat.reduceLT,
    check_ok, pure_bind]
  refine follows_ite (fun _ => ?_) fun _ => ?_
  · exact follows_blockTransfer (ThumbInstruction.popTransfer _ _) _
  · exact follows_blockTransfer (ThumbInstruction.pushTransfer _ _) _

theorem follows_thumbMultiple :
    Follows cpu.cells cpu (thumbMultiple opcode)
      (attempt (opcode.setWidth 32)
        (ThumbInstruction.multiple (opcode.getLsbD 11) (ThumbInstruction.lowAt opcode 8)
          (opcode.extractLsb' 0 8)).refusal?
        (ThumbInstruction.multiple (opcode.getLsbD 11) (ThumbInstruction.lowAt opcode 8)
          (opcode.extractLsb' 0 8)).execute) := by
  have hlist := getBits_field opcode 0 7 8 (by decide)
  simp only [thumbMultiple, getBit_of_lt, thumbRegister_of_lt, hlist, Nat.reduceLT, check_ok,
    pure_bind]
  exact follows_blockTransfer (ThumbInstruction.multipleTransfer _ _ _) _

/-! ### Following branches -/

theorem follows_thumbConditionalBranch :
    Follows cpu.cells cpu (thumbConditionalBranch opcode)
      (ThumbInstruction.conditionalBranch (.ofField (opcode.extractLsb' 8 4))
        (opcode.extractLsb' 0 8)).execute := by
  have hcondition := thumbField_eq_ok opcode 8 11 4 (by decide)
  have hfield := getBits_field opcode 0 7 8 (by decide)
  -- the distance is shifted as a halfword and extended from there
  have hshift : shl ((opcode.extractLsb' 0 8).setWidth 16 : Halfword) 1 = .ok _ :=
    shl_of_lt (by decide)
  have hdistance : signExtend (((opcode.extractLsb' 0 8).setWidth 16 : Halfword) <<< 1) 9 =
      .ok (ThumbInstruction.conditionalDistance (opcode.extractLsb' 0 8)) :=
    signExtend_shl_field _ 1 (by decide) (by decide)
  simp only [thumbConditionalBranch, hcondition, hfield, hshift, hdistance, check_ok, pure_bind,
    conditionOf_field]
  refine follows_look (Cells.flags_cells cpu) (follows_get ?_)
  refine follows_ite (fun _ => ?_) fun _ => follows_pure _
  exact follows_lookRead .pc (follows_branchTo _)

theorem follows_thumbBranch :
    Follows cpu.cells cpu (thumbBranch opcode)
      (ThumbInstruction.branch (opcode.extractLsb' 0 11)).execute := by
  have hfield := getBits_field opcode 0 10 11 (by decide)
  have hshift : shl ((opcode.extractLsb' 0 11).setWidth 16 : Halfword) 1 = .ok _ :=
    shl_of_lt (by decide)
  have hdistance : signExtend (((opcode.extractLsb' 0 11).setWidth 16 : Halfword) <<< 1) 12 =
      .ok (ThumbInstruction.branchDistance (opcode.extractLsb' 0 11)) :=
    signExtend_shl_field _ 1 (by decide) (by decide)
  simp only [thumbBranch, hfield, hshift, hdistance, check_ok, pure_bind]
  exact follows_lookRead .pc (follows_get (follows_branchTo _))

/-- The high part of the distance of a call, which is extended before it is shifted. -/
theorem shl_callHigh (offset : BitVec 11) :
    (do shl (← signExtend (offset.setWidth 16 : Halfword) 11) 12) =
      .ok (ThumbInstruction.callHigh offset) := by
  have hextend : signExtend (offset.setWidth 16 : Halfword) 11 =
      .ok (((offset.setWidth 16).setWidth 32).setWidth 11 |>.signExtend 32) :=
    signExtend_eq_ok (by decide) (by decide)
  have hback : ((offset.setWidth 16).setWidth 32).setWidth 11 = offset := by
    rw [BitVec.setWidth_setWidth_of_le _ (by decide), BitVec.setWidth_setWidth_of_le _ (by decide),
      BitVec.setWidth_eq]
  rw [hextend, hback, ok_bind, shl_of_lt (by decide)]
  refine congrArg Except.ok (BitVec.eq_of_getLsbD_eq fun i hi => ?_)
  unfold ThumbInstruction.callHigh
  have hmsb : (offset ++ 0#12).msb = offset.msb := by
    rw [BitVec.msb_append]
    rfl
  rw [BitVec.getLsbD_shiftLeft, BitVec.getLsbD_signExtend, BitVec.getLsbD_signExtend,
    BitVec.getLsbD_append, hmsb]
  -- zeros below the field, the field, its sign above
  by_cases hlow : i < 12
  · have hin : i < 11 + 12 := by omega
    simp [hlow, hin]
  · by_cases hin : i < 11 + 12
    · have hfield : i - 12 < 11 := by omega
      simp [hi, hlow, hin, hfield, show i - 12 < 32 by omega]
    · have hfield : ¬i - 12 < 11 := by omega
      simp [hi, hlow, hin, hfield, show i - 12 < 32 by omega]

theorem follows_thumbLongBranch :
    Follows cpu.cells cpu (thumbLongBranch opcode)
      (if opcode.getLsbD 11 then
        (ThumbInstruction.callSecond (opcode.extractLsb' 0 11)).execute
      else (ThumbInstruction.callFirst (opcode.extractLsb' 0 11)).execute) := by
  have hfield := getBits_field opcode 0 10 11 (by decide)
  have hwide : ((opcode.extractLsb' 0 11).setWidth 16).setWidth 32 =
      (opcode.extractLsb' 0 11).setWidth 32 := setWidth_setWidth_halfword _ (by decide)
  have hlow : shl ((opcode.extractLsb' 0 11).setWidth 32 : Word) 1 =
      .ok (ThumbInstruction.callLow (opcode.extractLsb' 0 11)) := by
    rw [shl_of_lt (by decide), shl_field]
    rfl
  simp only [thumbLongBranch, getBit_of_lt, hfield, hwide, hlow, Nat.reduceLT, check_ok, pure_bind]
  refine follows_lookRead .pc (follows_ite (fun _ => ?_) fun _ => ?_)
  -- the second half of a call reads the link register before it is written
  · refine follows_lookRead .lr (follows_get ?_)
    exact follows_bind (follows_writeRegister_modify Register.lr_ne_pc _) fun _ c =>
      follows_branchTo _
  -- the first half adds its distance to the program counter
  · have hhigh := shl_callHigh (opcode.extractLsb' 0 11)
    rw [← bind_assoc, ← check_bind]
    refine follows_check hhigh ?_
    exact follows_bind (follows_writeRegister_modify Register.lr_ne_pc _) fun _ c =>
      follows_pure _

/-! ### Following the dispatch -/

/-- Performs the instruction that an opcode encodes. -/
def performThumb (opcode : Halfword) : StepM Flow :=
  match ThumbInstruction.ofOpcode? opcode with
  | none => rejectUndefined (opcode.setWidth 32)
  | some instruction =>
    attempt (opcode.setWidth 32) instruction.refusal? instruction.execute

theorem follows_thumbSoftwareInterrupt :
    Follows cpu.cells cpu (thumbPerform opcode .softwareInterrupt)
      (ThumbInstruction.softwareInterrupt (opcode.extractLsb' 0 8)).execute :=
  follows_bind (follows_raise .softwareInterrupt) fun _ _ => follows_pure Flow.jump

/-- The table has the format of every opcode at its high byte. -/
theorem lookup_thumbTable :
    (do lookup (← thumbTable) (← shr opcode 8).toNat) = .ok (ThumbKind.ofOpcode opcode) := by
  have htable : thumbTable = .ok (.ofFn fun index => ThumbKind.ofHighByte (.ofNat 8 index)) :=
    table_eq_ok fun _ => rfl
  have hshift : shr opcode 8 = .ok (opcode >>> 8) := shr_of_lt (by decide)
  have hbyte : BitVec.ofNat 8 (opcode >>> 8).toNat = opcode.extractLsb' 8 8 := by
    rw [BitVec.toNat_ushiftRight]
    rfl
  -- a high byte is an index into the table
  have hlt : (opcode >>> 8).toNat < 256 := by
    have := opcode.isLt
    rw [BitVec.toNat_ushiftRight, Nat.shiftRight_eq_div_pow]
    omega
  rw [htable, hshift]
  simp only [ok_bind, lookup_of_lt hlt, Vector.getElem_ofFn, hbyte]
  rfl

/-- What the table has for an opcode follows the instruction of the opcode. -/
theorem follows_thumbDispatch :
    Follows cpu.cells cpu (thumbDispatch opcode) (performThumb opcode) := by
  have hlookup := lookup_thumbTable opcode
  have htable : thumbDispatch opcode =
      (check (do lookup (← thumbTable) (← shr opcode 8).toNat) >>= thumbPerform opcode) := by
    simp only [thumbDispatch, check_bind, bind_assoc]
  rw [htable]
  refine follows_check hlookup ?_
  unfold performThumb ThumbInstruction.ofOpcode?
  -- format by format, and each is followed by its own lemma
  cases ThumbKind.ofOpcode opcode with
  | shiftedMove => exact follows_thumbShiftedMove opcode
  | addSubtract => exact follows_thumbAddSubtract opcode
  | immediate => exact follows_thumbImmediate opcode
  | alu => exact follows_thumbAlu opcode
  | highRegister => exact follows_thumbHighRegister opcode
  | pcRelativeLoad => exact follows_thumbPcRelativeLoad opcode
  | registerOffset => exact follows_thumbRegisterOffset opcode
  | signExtended => exact follows_thumbSignExtended opcode
  | immediateOffset => exact follows_thumbImmediateOffset opcode
  | halfword => exact follows_thumbHalfword opcode
  | spRelative => exact follows_thumbSpRelative opcode
  | loadAddress => exact follows_thumbLoadAddress opcode
  | adjustStack => exact follows_thumbAdjustStack opcode
  | pushPop =>
    have hform : Follows cpu.cells cpu _ _ := follows_thumbPushPop opcode
    cases hbit : opcode.getLsbD 11
    all_goals
      rw [hbit] at hform
      exact hform
  | multiple => exact follows_thumbMultiple opcode
  | conditionalBranch => exact follows_thumbConditionalBranch opcode
  | softwareInterrupt => exact follows_thumbSoftwareInterrupt opcode
  | branch => exact follows_thumbBranch opcode
  | longBranch =>
    have hform : Follows cpu.cells cpu _ _ := follows_thumbLongBranch opcode
    cases hbit : opcode.getLsbD 11
    all_goals
      rw [hbit] at hform
      exact hform
  | undefined => exact follows_refuseUndefined _

end Armv4t.Trapping

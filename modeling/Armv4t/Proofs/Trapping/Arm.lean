import Armv4t.Arm.Instruction
import Armv4t.Proofs.Trapping.Transfer

/-!
# ARM instructions on a host that traps

A host finds what to do for an ARM opcode in a table of 4096 entries, by the number made of bits 27
to 20 and 7 to 4, and takes the operands out of the opcode as it needs them.  Building the table and
every entry of it follow the instruction of the opcode.
-/

namespace Armv4t.Trapping

open HostM

/-! ### Kinds of instructions -/

/-- The kind of an index with the three highest bits clear. -/
def registerSpaceKind (high low : Word) : Checked ArmKind := do
  if low = 0b1001 then
    if high ≤ 0x03 then return .multiply
    else if 0x08 ≤ high ∧ high ≤ 0x0F then return .multiplyLong
    else if high = 0x10 ∨ high = 0x14 then return .swap
    else return .undefined
  else if low &&& 0b1001 = 0b1001 then
    let load ← getBit high 0
    let signed ← getBit low 2
    return if !load && signed then .undefined else .halfwordTransfer
  else if high &&& 0b11001 = 0b10000 then
    if high = 0x12 ∧ low = 0b0001 then return .branchExchange
    else if (high = 0x10 ∨ high = 0x14) ∧ low = 0 then return .readStatus
    else if (high = 0x12 ∨ high = 0x16) ∧ low = 0 then return .writeStatus
    else return .undefined
  else return .dataProcessing

/-- The kind of an index. -/
def kindOfIndex (index : Word) : Checked ArmKind := do
  let high := (← shr index 4) &&& 0xFF
  let low := index &&& 0xF
  match (← shr high 5).toNat with
  | 0b000 => registerSpaceKind high low
  | 0b001 =>
    if high &&& 0b11001 = 0b10000 then
      return if ← getBit high 1 then .writeStatus else .undefined
    else return .dataProcessing
  | 0b010 => return .singleTransfer
  | 0b011 => return if ← getBit low 0 then .undefined else .singleTransfer
  | 0b100 => return .blockTransfer
  | 0b101 => return .branch
  | 0b110 => return .undefined
  | _ => return if ← getBit high 4 then .softwareInterrupt else .undefined

/-- The index of an opcode. -/
def armIndex (opcode : Word) : Checked Nat := do
  return (((← shr opcode 16) &&& 0xFF0) ||| ((← shr opcode 4) &&& 0xF)).toNat

/-- The kinds of all indices. -/
def armTable : Checked (Vector ArmKind 4096) :=
  table 4096 fun index => kindOfIndex (.ofNat 32 index)

/-! ### Data processing -/

/-- The second operand of a data-processing instruction. -/
def armSecondOperand (opcode : Word) : HostM Shifted := do
  if ← check (getBit opcode 25) then
    let value ← check (getBits opcode 0 7)
    check (rotateImmediate value (← check (getBits opcode 8 11)))
  else
    let source ← check (armRegister opcode 0)
    let kind := shiftKindOf (← check (getBits opcode 5 6))
    if ← check (getBit opcode 4) then
      charge 1
      let amount ← look (·.readLate (← check (armRegister opcode 8)))
      check (shiftByRegister kind (← look (·.readLate source)) amount)
    else
      let amount ← check (getBits opcode 7 11)
      check (shiftByImmediate kind (← look (·.read source)) amount (← look Cells.carry))

/-- The first operand of a data-processing instruction. -/
def armFirstOperand (byRegister : Bool) (register : Register) (cells : Cells) : Checked Word :=
  if byRegister then cells.readLate register else cells.read register

/-- Performs a data-processing instruction. -/
def armDataProcessing (opcode : Word) : HostM Flow := do
  let operation := aluOperationOf (← check (getBits opcode 21 24))
  let setFlags ← check (getBit opcode 20)
  let first ← check (armRegister opcode 16)
  let destination ← check (armRegister opcode 12)
  let byRegister := !(← check (getBit opcode 25)) && (← check (getBit opcode 4))
  let second ← armSecondOperand opcode
  let first ← look (armFirstOperand byRegister first)
  let result ← check (evaluate operation first second (← look Cells.carry))
  if operation.isTest then
    setFlagsAfter result
    return .next
  else if destination = .pc then
    if setFlags then restoreStatus
    branchTo result.value
  else
    writeRegister destination result.value
    if setFlags then setFlagsAfter result
    return .next

/-! ### Status transfers -/

/-- The value that a read of a status register delivers. -/
def armStatusValue (saved : Bool) : HostM Word := do
  if saved then
    match ← look Cells.spsr? with
    | some word => return word
    | none =>
      note (.noSavedStatus (← look Cells.mode))
      return (← get).cpsr
  else
    return (← get).cpsr

/-- Reads a status register. -/
def armReadStatus (opcode : Word) : HostM Flow := do
  let destination ← check (armRegister opcode 12)
  let value ← armStatusValue (← check (getBit opcode 22))
  writeRegister destination value
  return .next

/-- The value written to a status register. -/
def armStatusSource (opcode : Word) : HostM Word := do
  if ← check (getBit opcode 25) then
    let value ← check (getBits opcode 0 7)
    return (← check (rotateImmediate value (← check (getBits opcode 8 11)))).value
  else
    look (·.read (← check (armRegister opcode 0)))

/-- The bits of the chosen fields. -/
def armStatusMask (opcode : Word) : Checked Word := do
  let flags : Word := if ← getBit opcode 19 then 0xFF000000 else 0
  let control : Word := if ← getBit opcode 16 then 0x000000FF else 0
  return flags ||| control

/-- Writes fields of a status register. -/
def armWriteStatus (opcode : Word) : HostM Flow := do
  let value ← armStatusSource opcode
  let mask ← check (armStatusMask opcode)
  if ← check (getBit opcode 22) then
    match ← look Cells.spsr? with
    | some word =>
      update (·.withSpsr ((value &&& mask) ||| (word &&& ~~~mask)))
      return .next
    | none =>
      note (.savedStatusIgnored (← look Cells.mode))
      return .next
  else
    let mode ← look Cells.mode
    let mask ← check (setBit (if mode = .user then mask &&& 0xFF000000 else mask) 5 false)
    let word := (← get).cpsr
    writeStatus ((value &&& mask) ||| (word &&& ~~~mask))
    return .next

/-! ### Multiplications and swaps -/

/-- Performs a multiplication with a result of one word. -/
def armMultiply (opcode : Word) : HostM Flow := do
  let destination ← check (armRegister opcode 16)
  let multiplicand ← look (·.read (← check (armRegister opcode 0)))
  let multiplier ← look (·.read (← check (armRegister opcode 8)))
  let setFlags ← check (getBit opcode 20)
  if ← check (getBit opcode 21) then
    let addend ← look (·.read (← check (armRegister opcode 12)))
    multiply destination multiplicand multiplier (some addend) setFlags
  else
    multiply destination multiplicand multiplier none setFlags

/-- Performs a multiplication with a result of two words. -/
def armMultiplyLong (opcode : Word) : HostM Flow := do
  let high ← check (armRegister opcode 16)
  let low ← check (armRegister opcode 12)
  let multiplicand ← look (·.read (← check (armRegister opcode 0)))
  let multiplier ← look (·.read (← check (armRegister opcode 8)))
  let signed ← check (getBit opcode 22)
  let accumulate ← check (getBit opcode 21)
  let setFlags ← check (getBit opcode 20)
  multiplyLong high low multiplicand multiplier signed accumulate setFlags

/-- Performs a swap. -/
def armSwap (opcode : Word) : HostM Flow := do
  let byte ← check (getBit opcode 22)
  let base ← check (armRegister opcode 16)
  let destination ← check (armRegister opcode 12)
  swap byte base destination (← check (armRegister opcode 0))

/-! ### Transfers -/

/-- The indexing of a transfer. -/
def armIndexing (opcode : Word) : Checked Indexing := do
  if ← getBit opcode 24 then return .pre (← getBit opcode 21)
  else return .post false

/-- Performs a transfer in the given format at the given offset. -/
def armTransfer (opcode : Word) (format : LoadFormat) (offset : Word) (exchange : Bool) :
    HostM Flow := do
  let base ← check (armRegister opcode 16)
  let transfer : DataTransfer := {
    load := ← check (getBit opcode 20)
    format
    data := ← check (armRegister opcode 12)
    base
    baseAddress := ← look (·.read base)
    offset
    up := ← check (getBit opcode 23)
    indexing := ← check (armIndexing opcode)
    exchange }
  transfer.perform opcode

/-- The offset of a halfword or signed transfer. -/
def armHalfwordOffset (opcode : Word) : HostM Word := do
  if ← check (getBit opcode 22) then
    let high ← check (shl (← check (getBits opcode 8 11)) 4)
    return high ||| (← check (getBits opcode 0 3))
  else
    look (·.read (← check (armRegister opcode 0)))

/-- The format of a code of a halfword or signed transfer. -/
def armHalfwordFormat (code : Word) : LoadFormat :=
  match code.toNat with
  | 0b01 => .halfword
  | 0b10 => .signedByte
  | _ => .signedHalfword

/-- Performs a halfword or signed transfer. -/
def armHalfwordTransfer (opcode : Word) : HostM Flow := do
  let offset ← armHalfwordOffset opcode
  let format := armHalfwordFormat (← check (getBits opcode 5 6))
  armTransfer opcode format offset false

/-- The offset of a transfer of a word or an unsigned byte. -/
def armOffset (opcode : Word) : HostM Word := do
  if ← check (getBit opcode 25) then
    let kind := shiftKindOf (← check (getBits opcode 5 6))
    let amount ← check (getBits opcode 7 11)
    let value ← look (·.read (← check (armRegister opcode 0)))
    return (← check (shiftByImmediate kind value amount (← look Cells.carry))).value
  else
    check (getBits opcode 0 11)

/-- Performs a transfer of a word or an unsigned byte. -/
def armSingleTransfer (opcode : Word) : HostM Flow := do
  let offset ← armOffset opcode
  let format : LoadFormat := if ← check (getBit opcode 22) then .byte else .word
  armTransfer opcode format offset (format == .word)

/-- Performs a block transfer. -/
def armBlockTransfer (opcode : Word) : HostM Flow := do
  blockTransfer opcode {
    load := ← check (getBit opcode 20)
    base := ← check (armRegister opcode 16)
    list := (← check (getBits opcode 0 15)).setWidth 16
    up := ← check (getBit opcode 23)
    pre := ← check (getBit opcode 24)
    writeBack := ← check (getBit opcode 21)
    mark := ← check (getBit opcode 22) }

/-! ### Branches and the rest -/

/-- Performs a branch. -/
def armBranch (opcode : Word) : HostM Flow := do
  let field ← check (shl (← check (getBits opcode 0 23)) 2)
  let distance ← check (signExtend field 26)
  let pc ← look (·.read .pc)
  if ← check (getBit opcode 24) then writeRegister .lr (pc - 4)
  branchTo (pc + distance)

/-- Performs a branch with exchange. -/
def armBranchExchange (opcode : Word) : HostM Flow := do
  branchExchange (← look (·.read (← check (armRegister opcode 0))))

/-- Stops with the fault of an opcode that is no instruction. -/
def refuseUndefined (opcode : Word) : HostM Flow := do
  let address ← look Cells.fetchAddress
  fail (.undefinedInstruction opcode address (← look Cells.instructionSet))

/-- Performs an opcode of a given kind. -/
def armPerform (opcode : Word) : ArmKind → HostM Flow
  | .dataProcessing => armDataProcessing opcode
  | .readStatus => armReadStatus opcode
  | .writeStatus => armWriteStatus opcode
  | .multiply => armMultiply opcode
  | .multiplyLong => armMultiplyLong opcode
  | .swap => armSwap opcode
  | .branchExchange => armBranchExchange opcode
  | .halfwordTransfer => armHalfwordTransfer opcode
  | .singleTransfer => armSingleTransfer opcode
  | .blockTransfer => armBlockTransfer opcode
  | .branch => armBranch opcode
  | .softwareInterrupt => do
    raise .softwareInterrupt
    return .jump
  | .undefined => refuseUndefined opcode

/-- Performs what the table has for an opcode. -/
def armDispatch (opcode : Word) : HostM Flow := do
  let kinds ← check armTable
  armPerform opcode (← check (lookup kinds (← check (armIndex opcode))))

/-! ### Following the table -/

theorem registerSpaceKind_eq_ok : ∀ (high : BitVec 5) (low : BitVec 4),
    registerSpaceKind (high.setWidth 32) (low.setWidth 32) =
      .ok (ArmKind.ofRegisterSpace (high.setWidth 8) low) := by
  decide +kernel

/-- The high byte and the low four bits of an index. -/
theorem index_parts (index : BitVec 12) :
    ((index.setWidth 32 : Word) >>> 4) &&& 0xFF = (index.extractLsb' 4 8).setWidth 32 ∧
      (index.setWidth 32 : Word) &&& 0xF = (index.extractLsb' 0 4).setWidth 32 := by
  have hlow : (index.setWidth 32 : Word) &&& 0xF =
      ((index.setWidth 32 : Word).extractLsb' 0 4).setWidth 32 := and_ones _ 4
  have hhigh : ((index.setWidth 32 : Word) >>> 4) &&& (0xFF : Word) =
      (((index.setWidth 32 : Word) >>> 4).extractLsb' 0 8).setWidth 32 := and_ones _ 8
  rw [hlow, hhigh]
  constructor
  -- the two parts of the index do not overlap
  · refine congrArg (BitVec.setWidth 32) (BitVec.eq_of_getLsbD_eq fun i hi => ?_)
    have hlt : 4 + i < 32 := by omega
    simp [hi, hlt]
  · refine congrArg (BitVec.setWidth 32) (BitVec.eq_of_getLsbD_eq fun i hi => ?_)
    have hlt : i < 32 := by omega
    simp [hi, hlt]

/-- A bit of a number is a bit of its wider form. -/
theorem getBit_setWidth {n : Nat} (value : BitVec n) {offset : Nat} (h : offset < 32) :
    getBit (value.setWidth 32) offset = .ok (value.getLsbD offset) := by
  rw [getBit_of_lt h, BitVec.getLsbD_setWidth, decide_eq_true h, Bool.true_and]

theorem kindOfIndex_eq_ok (index : BitVec 12) :
    kindOfIndex (index.setWidth 32) = .ok (ArmKind.ofIndex index) := by
  obtain ⟨hhigh, hlow⟩ := index_parts index
  have hshift : shr (index.setWidth 32 : Word) 4 = .ok ((index.setWidth 32 : Word) >>> 4) :=
    shr_of_lt (by decide)
  unfold kindOfIndex ArmKind.ofIndex
  simp only [hshift, ok_bind, hhigh, hlow]
  generalize index.extractLsb' 4 8 = high
  generalize index.extractLsb' 0 4 = low
  have htop : ∀ high : BitVec 8,
      shr (high.setWidth 32) 5 = .ok ((high.extractLsb' 5 3).setWidth 32 : Word) := by
    decide
  have hnat : ((high.extractLsb' 5 3).setWidth 32 : Word).toNat = (high.extractLsb' 5 3).toNat :=
    BitVec.toNat_setWidth_of_le (by decide)
  have hspace : ∀ high : BitVec 8, (high.extractLsb' 5 3).toNat = 0 →
      high.setWidth 32 = ((high.extractLsb' 0 5).setWidth 32 : Word) ∧
        high = (high.extractLsb' 0 5).setWidth 8 := by
    decide
  have htest : ∀ high : BitVec 8, (high.setWidth 32 : Word) &&& 0b11001 = 0b10000 ↔
      high.getLsbD 4 = true ∧ ¬high.getLsbD 3 = true ∧ ¬high.getLsbD 0 = true := by
    decide
  have hbit1 : getBit (high.setWidth 32 : Word) 1 = _ := getBit_setWidth high (by decide)
  have hbit4 : getBit (high.setWidth 32 : Word) 4 = _ := getBit_setWidth high (by decide)
  have hbit0 : getBit (low.setWidth 32 : Word) 0 = _ := getBit_setWidth low (by decide)
  have hlt := (high.extractLsb' 5 3).isLt
  simp only [htop, ok_bind, hnat, htest, hbit1, hbit4, hbit0, pure_eq_ok]
  -- the top three bits choose the group; only the first two groups are divided further
  generalize hn : (high.extractLsb' 5 3).toNat = n at hlt
  obtain rfl | rfl | rfl | rfl | rfl | rfl | rfl | rfl :
      n = 0 ∨ n = 1 ∨ n = 2 ∨ n = 3 ∨ n = 4 ∨ n = 5 ∨ n = 6 ∨ n = 7 := by omega
  · obtain ⟨hword, hbyte⟩ := hspace high hn
    have hkind := registerSpaceKind_eq_ok (high.extractLsb' 0 5) low
    rwa [← hword, ← hbyte] at hkind
  · change (if _ then _ else _ : Checked ArmKind) = .ok (if _ then _ else _)
    split_ifs <;> rfl
  all_goals rfl

theorem armIndex_eq_ok (opcode : Word) :
    armIndex opcode = .ok (ArmKind.index opcode).toNat := by
  have h16 : shr opcode 16 = .ok (opcode >>> 16) := shr_of_lt (by decide)
  have h4 : shr opcode 4 = .ok (opcode >>> 4) := shr_of_lt (by decide)
  have hmask : ∀ i < 32, (0xFF0 : Word).getLsbD i = decide (4 ≤ i ∧ i < 12) := by decide
  have hmask' : ∀ i < 32, (0xF : Word).getLsbD i = decide (i < 4) := by decide
  -- the two fields come together side by side
  have hword : ((opcode >>> 16) &&& (0xFF0 : Word)) ||| ((opcode >>> 4) &&& (0xF : Word)) =
      (ArmKind.index opcode).setWidth 32 := by
    refine BitVec.eq_of_getLsbD_eq fun i hi => ?_
    rw [BitVec.getLsbD_or, BitVec.getLsbD_and, BitVec.getLsbD_and, hmask i hi, hmask' i hi,
      BitVec.getLsbD_ushiftRight, BitVec.getLsbD_ushiftRight, BitVec.getLsbD_setWidth,
      ArmKind.index, BitVec.getLsbD_append, BitVec.getLsbD_extractLsb', BitVec.getLsbD_extractLsb']
    by_cases hlow : i < 4
    · simp [hi, hlow, show ¬4 ≤ i by omega]
    · by_cases hhigh : i < 12
      · simp [hi, hlow, hhigh, show 4 ≤ i by omega, show i - 4 < 8 by omega,
          show 20 + (i - 4) = 16 + i by omega]
      · simp [hlow, hhigh, show ¬i - 4 < 8 by omega]
  simp only [armIndex, h16, h4, ok_bind, pure_eq_ok, hword]
  rw [BitVec.toNat_setWidth_of_le (by decide)]

/-- The table has the kind of every opcode at its index. -/
theorem lookup_armTable (opcode : Word) :
    (do lookup (← armTable) (← armIndex opcode)) = .ok (ArmKind.ofOpcode opcode) := by
  -- the entry for each index is its kind, by going through the twelve bits
  have hentry (index : Fin 4096) :
      kindOfIndex (.ofNat 32 index) = .ok (ArmKind.ofIndex (.ofFin index)) := by
    have hword : (.ofNat 32 index : Word) = (BitVec.ofFin index : BitVec 12).setWidth 32 := by
      refine BitVec.eq_of_toNat_eq ?_
      rw [BitVec.toNat_setWidth_of_le (by decide), BitVec.toNat_ofNat]
      exact Nat.mod_eq_of_lt (by have := index.isLt; omega)
    rw [hword, kindOfIndex_eq_ok]
  have htable : armTable = .ok (.ofFn fun index => ArmKind.ofIndex (.ofFin index)) :=
    table_eq_ok hentry
  have hlt := (ArmKind.index opcode).isLt
  rw [htable, armIndex_eq_ok]
  simp only [ok_bind, lookup_of_lt hlt, Vector.getElem_ofFn]
  rfl

variable {α : Type} {cpu : Cpu} (opcode : Word)

/-! ### Following data processing -/

/-- The shifter operand takes its amount from a register if bit 25 is clear and bit 4 is set. -/
theorem isByRegister_shifterOperand :
    (ArmInstruction.shifterOperand opcode).isByRegister =
      (!opcode.getLsbD 25 && opcode.getLsbD 4) := by
  unfold ArmInstruction.shifterOperand
  cases opcode.getLsbD 25 <;> cases opcode.getLsbD 4 <;> rfl

/-- The second operand passes one cycle if a register gives the amount of its shift, and is the
output of the shifter. -/
theorem follows_armSecondOperand {f : Shifted → HostM α} {y : StepM α}
    (k : Follows cpu.cells cpu (f ((ArmInstruction.shifterOperand opcode).shifted cpu)) y) :
    Follows cpu.cells cpu (armSecondOperand opcode >>= f)
      (if (ArmInstruction.shifterOperand opcode).isByRegister then
        liftM (CpuM.charge 1) >>= fun _ => y else y) := by
  have hvalue := getBits_field opcode 0 7 8 (by decide)
  have hrotation := getBits_field opcode 8 11 4 (by decide)
  have hkind := getBits_field opcode 5 6 2 (by decide)
  have hamount := getBits_field opcode 7 11 5 (by decide)
  rw [isByRegister_shifterOperand]
  unfold ArmInstruction.shifterOperand at k
  simp only [armSecondOperand, getBit_of_lt, Nat.reduceLT, check_ok, pure_bind]
  by_cases himmediate : opcode.getLsbD 25 = true
  · simp only [himmediate, if_true, Bool.not_true, Bool.false_and, Bool.false_eq_true, if_false,
      hvalue, hrotation, check_ok, pure_bind, rotateImmediate_field] at k ⊢
    exact k
  by_cases hby : opcode.getLsbD 4 = true
  · simp only [himmediate, hby, hkind, armRegister_of_lt, Nat.reduceLT, if_true, if_false, check_ok,
      pure_bind, bind_assoc, Bool.not_false, Bool.and_self, Bool.false_eq_true,
      shiftKindOf_field] at k ⊢
    -- the cycle has passed when the registers are read, so the program counter is further ahead
    refine follows_charge_bind rfl ?_
    refine follows_lookReadLate _ (follows_lookReadLate _ ?_)
    exact follows_check (shiftByRegister_eq_ok _ _ _) k
  · simp only [himmediate, hby, hkind, hamount, armRegister_of_lt, Nat.reduceLT, if_false, check_ok,
      pure_bind, bind_assoc, Bool.and_false, Bool.false_eq_true, shiftKindOf_field] at k ⊢
    refine follows_lookRead _ (follows_look (Cells.carry_cells cpu) ?_)
    exact follows_check (shiftByImmediate_field _ _ _ _) k

theorem armFirstOperand_cells (register : Register) :
    armFirstOperand (!opcode.getLsbD 25 && opcode.getLsbD 4) register cpu.cells =
      .ok ((ArmInstruction.shifterOperand opcode).readBeside cpu register) := by
  rw [← isByRegister_shifterOperand]
  unfold armFirstOperand ShifterOperand.readBeside
  split_ifs
  · exact Cells.readLate_cells cpu register
  · exact Cells.read_cells cpu register

theorem follows_armDataProcessing :
    Follows cpu.cells cpu (armDataProcessing opcode)
      (ArmInstruction.ofDataProcessing opcode).execute := by
  have hcode := getBits_field opcode 21 24 4 (by decide)
  simp only [armDataProcessing, hcode, getBit_of_lt, armRegister_of_lt, Nat.reduceLT, check_ok,
    pure_bind, aluOperationOf_field, DataProcessing.execute, ArmInstruction.ofDataProcessing]
  refine follows_armSecondOperand opcode (follows_get ?_)
  refine follows_look (armFirstOperand_cells opcode _) ?_
  refine follows_look (Cells.carry_cells cpu) (follows_check (evaluate_eq_ok _ _ _ _) ?_)
  refine follows_ite (fun _ => ?_) fun _ => follows_ite (fun _ => ?_) fun hpc => ?_
  · exact follows_bind (follows_setFlagsAfter _) fun _ c => follows_pure _
  · exact follows_when (fun _ => follows_restoreStatus) fun c => follows_branchTo _
  · refine follows_bind (follows_writeRegister_modify hpc _) fun _ c => ?_
    exact follows_when (fun _ => follows_setFlagsAfter _) fun c => follows_pure _

/-! ### Following status transfers -/

theorem follows_armReadStatus :
    Follows cpu.cells cpu (armReadStatus opcode)
      (liftM (readStatus (opcode.getLsbD 22) (ArmInstruction.registerAt opcode 12))) := by
  simp only [armReadStatus, armRegister_of_lt, getBit_of_lt, Nat.reduceLT, check_ok, pure_bind,
    readStatus, armStatusValue, liftM_bind]
  generalize ArmInstruction.registerAt opcode 12 = destination
  -- either status goes to the register in the same way
  have hwrite (value : Word) (c : Cpu) :
      Follows c.cells c (writeRegister destination value >>= fun _ => pure Flow.next)
        (liftM (CpuM.writeRegister destination value) >>= fun _ => pure Flow.next) :=
    follows_bind (follows_writeRegister destination value) fun _ c => follows_pure _
  refine follows_get ?_
  by_cases hsaved : opcode.getLsbD 22 = true
  · simp only [hsaved, if_true, bind_assoc]
    refine follows_look (Cells.spsr?_cells cpu) ?_
    cases cpu.spsr? with
    | some word =>
      simp only [pure_bind, liftM_bind, liftM_pure]
      exact hwrite word cpu
    | none =>
      simp only [bind_assoc, pure_bind, liftM_bind, liftM_pure]
      -- the mode is only wanted for the warning
      refine follows_look (Cells.mode_cells cpu) (follows_note_bind _ ?_)
      exact follows_cells (hwrite cpu.cpsr.toWord cpu)
  · simp only [hsaved, if_false, Bool.false_eq_true, bind_assoc, pure_bind, liftM_bind, liftM_pure]
    exact follows_cells (hwrite cpu.cpsr.toWord cpu)

/-- The value written to a status register is that of the instruction's source. -/
theorem follows_armStatusSource {f : Word → HostM α} {y : StepM α}
    (k : Follows cpu.cells cpu (f ((ArmInstruction.ofStatusWrite opcode).source.value cpu)) y) :
    Follows cpu.cells cpu (armStatusSource opcode >>= f) y := by
  have hvalue := getBits_field opcode 0 7 8 (by decide)
  have hrotation := getBits_field opcode 8 11 4 (by decide)
  unfold ArmInstruction.ofStatusWrite at k
  simp only [armStatusSource, getBit_of_lt, Nat.reduceLT, check_ok, pure_bind]
  by_cases himmediate : opcode.getLsbD 25 = true
  · simp only [himmediate, if_true, hvalue, hrotation, check_ok, pure_bind,
      rotateImmediate_field] at k ⊢
    exact k
  · simp only [himmediate, if_false, armRegister_of_lt, Nat.reduceLT, check_ok, pure_bind,
      Bool.false_eq_true] at k ⊢
    exact follows_lookRead _ k

/-- The bits of the chosen fields are those of the instruction. -/
theorem armStatusMask_eq_ok :
    armStatusMask opcode = .ok (ArmInstruction.ofStatusWrite opcode).mask := by
  have hflags : (opcode.extractLsb' 16 4).getLsbD 3 = opcode.getLsbD 19 := by simp
  have hcontrol : (opcode.extractLsb' 16 4).getLsbD 0 = opcode.getLsbD 16 := by simp
  simp only [armStatusMask, getBit_of_lt, Nat.reduceLT, ok_bind, pure_eq_ok, StatusWrite.mask,
    ArmInstruction.ofStatusWrite, hflags, hcontrol]
  rfl

theorem follows_armWriteStatus :
    Follows cpu.cells cpu (armWriteStatus opcode)
      (ArmInstruction.ofStatusWrite opcode).execute := by
  unfold armWriteStatus StatusWrite.execute
  refine follows_armStatusSource opcode ?_
  have hsaved : (ArmInstruction.ofStatusWrite opcode).saved = opcode.getLsbD 22 := rfl
  simp only [armStatusMask_eq_ok, check_ok, pure_bind, getBit_of_lt, Nat.reduceLT, hsaved]
  generalize ArmInstruction.ofStatusWrite opcode = operation
  refine follows_get (follows_ite (fun _ => ?_) fun _ => ?_)
  · refine follows_look (Cells.spsr?_cells cpu) ?_
    cases cpu.spsr? with
    | some word =>
      exact follows_bind (follows_update_set (Cells.withSpsr_cells cpu _)) fun _ c =>
        follows_pure _
    | none => exact follows_look (Cells.mode_cells cpu) (follows_note_bind _ (follows_pure _))
  · -- clearing the bit of the instruction set in the mask is all that is left to compute
    have hmask : setBit (if cpu.mode = .user then operation.mask &&& 0xFF000000 else operation.mask)
        5 false = .ok (operation.currentMask cpu.mode) := setBit_of_lt false (by decide)
    refine follows_look (Cells.mode_cells cpu) (follows_check hmask (follows_cells ?_))
    exact follows_bind (follows_writeStatus _) fun _ c => follows_pure _

/-! ### Following multiplications and swaps -/

theorem follows_armMultiply :
    Follows cpu.cells cpu (armMultiply opcode)
      (liftM (ArmInstruction.ofMultiply opcode).execute) := by
  have hmultiply : Follows cpu.cells cpu _ _ := follows_multiply (ArmInstruction.ofMultiply opcode)
  simp only [armMultiply, armRegister_of_lt, getBit_of_lt, Nat.reduceLT, check_ok, pure_bind]
  refine follows_lookRead _ (follows_lookRead _ ?_)
  -- the addend is read only if there is one
  by_cases haccumulate : opcode.getLsbD 21 = true
  · have haddend : (ArmInstruction.ofMultiply opcode).addend =
        some (ArmInstruction.registerAt opcode 12) := if_pos haccumulate
    rw [haddend] at hmultiply
    rw [if_pos haccumulate]
    exact follows_lookRead _ hmultiply
  · have haddend : (ArmInstruction.ofMultiply opcode).addend = none := if_neg haccumulate
    rw [haddend] at hmultiply
    rw [if_neg haccumulate]
    exact hmultiply

theorem follows_armMultiplyLong :
    Follows cpu.cells cpu (armMultiplyLong opcode)
      (liftM (ArmInstruction.ofMultiplyLong opcode).execute) := by
  simp only [armMultiplyLong, armRegister_of_lt, getBit_of_lt, Nat.reduceLT, check_ok, pure_bind]
  refine follows_lookRead _ (follows_lookRead _ ?_)
  exact follows_multiplyLong (ArmInstruction.ofMultiplyLong opcode)

theorem follows_armSwap :
    Follows cpu.cells cpu (armSwap opcode) (ArmInstruction.ofSwap opcode).execute := by
  simp only [armSwap, armRegister_of_lt, getBit_of_lt, Nat.reduceLT, check_ok, pure_bind]
  exact follows_swap (ArmInstruction.ofSwap opcode)

/-! ### Following transfers -/

/-- The host's indexing leaves the mark of an unprivileged access out. -/
theorem armIndexing_eq_ok (mayBeUnprivileged : Bool) :
    armIndexing opcode = .ok
      (if let .pre writeBack := ArmInstruction.indexing opcode mayBeUnprivileged then
        .pre writeBack else .post false) := by
  simp only [armIndexing, getBit_of_lt, Nat.reduceLT, ok_bind, pure_eq_ok,
    ArmInstruction.indexing]
  cases opcode.getLsbD 24 <;> rfl

/-- A transfer with the operands of its opcode, with a format that stands for its access. -/
theorem follows_armTransfer (transfer : SingleTransfer) {mayBeUnprivileged : Bool}
    {format : LoadFormat} (offset : Word) {exchange : Bool}
    (hdata : transfer.data = ArmInstruction.registerAt opcode 12)
    (hbase : transfer.base = ArmInstruction.registerAt opcode 16)
    (hup : transfer.up = opcode.getLsbD 23)
    (hindexing : transfer.indexing = ArmInstruction.indexing opcode mayBeUnprivileged)
    (haccess : DataTransfer.ofAccess transfer.access = (opcode.getLsbD 20, format))
    (hexchange : ∀ format, transfer.access = .load format → transfer.data = .pc →
      (exchange = true ↔ format = .word)) :
    Follows cpu.cells cpu (armTransfer opcode format offset exchange)
      (attempt opcode transfer.refusal?
        (transfer.executeAt (cpu.read transfer.base) offset)) := by
  -- the fields of the transfer are those of the opcode
  have hperform : Follows cpu.cells cpu _ _ :=
    follows_perform transfer (cpu.read transfer.base) offset exchange opcode hexchange
  simp only [armTransfer, armRegister_of_lt, getBit_of_lt, Nat.reduceLT, check_ok, pure_bind,
    armIndexing_eq_ok opcode mayBeUnprivileged, ← hdata, ← hbase, ← hup, ← hindexing]
  refine follows_lookRead _ ?_
  unfold DataTransfer.of at hperform
  rwa [haccess] at hperform

/-- An opcode that is a halfword or signed transfer has a code other than that of a multiplication,
and is a load if it is signed. -/
theorem halfwordTransfer_bits (h : ArmKind.ofOpcode opcode = .halfwordTransfer) :
    (opcode.getLsbD 6 = true ∨ opcode.getLsbD 5 = true) ∧
      (opcode.getLsbD 6 = true → opcode.getLsbD 20 = true) := by
  have hload : (opcode.extractLsb' 20 8).getLsbD 0 = opcode.getLsbD 20 := by simp
  have hsign : (opcode.extractLsb' 4 4).getLsbD 2 = opcode.getLsbD 6 := by simp
  have hhalf : (opcode.extractLsb' 4 4).getLsbD 1 = opcode.getLsbD 5 := by simp
  have hhigh : (ArmKind.index opcode).extractLsb' 4 8 = opcode.extractLsb' 20 8 :=
    BitVec.extractLsb'_append_eq_left
  have hlow : (ArmKind.index opcode).extractLsb' 0 4 = opcode.extractLsb' 4 4 :=
    BitVec.extractLsb'_append_eq_right
  rw [← hload, ← hsign, ← hhalf]
  simp only [ArmKind.ofOpcode, ArmKind.ofIndex, hhigh, hlow] at h
  generalize opcode.extractLsb' 20 8 = high at h
  generalize opcode.extractLsb' 4 4 = low at h
  have hcodes : ∀ low : BitVec 4, low ≠ 0b1001 → low.getLsbD 3 = true ∧ low.getLsbD 0 = true →
      low.getLsbD 2 = true ∨ low.getLsbD 1 = true := by
    decide
  -- of the groups, only that of the register space has halfword transfers
  split at h
  · unfold ArmKind.ofRegisterSpace at h
    split_ifs at h with hnine _ _ _ hmarked hstore
    refine ⟨hcodes low hnine hmarked, fun hsigned => ?_⟩
    by_contra hclear
    exact hstore ⟨hsigned, hclear⟩
  · split_ifs at h
  · cases h
  · split_ifs at h
  · cases h
  · cases h
  · cases h
  · split_ifs at h

/-- The accesses of halfword and signed transfers, by the three bits that choose them. -/
theorem ofAccess_halfwordAccess (h : ArmKind.ofOpcode opcode = .halfwordTransfer) :
    DataTransfer.ofAccess (ArmInstruction.halfwordAccess opcode) =
      (opcode.getLsbD 20, armHalfwordFormat ((opcode.extractLsb' 5 2).setWidth 32)) := by
  obtain ⟨hcode, hstore⟩ := halfwordTransfer_bits opcode h
  have hhalf : (opcode.extractLsb' 5 2).getLsbD 0 = opcode.getLsbD 5 := by simp
  have hsign : (opcode.extractLsb' 5 2).getLsbD 1 = opcode.getLsbD 6 := by simp
  -- two bits, not both of them clear, tell the format
  have hformat : ∀ code : BitVec 2, code.getLsbD 1 = true ∨ code.getLsbD 0 = true →
      armHalfwordFormat (code.setWidth 32) = if code.getLsbD 1 then
        (if code.getLsbD 0 then .signedHalfword else .signedByte) else .halfword := by
    decide
  rw [← hhalf, ← hsign] at hcode
  rw [hformat _ hcode, hhalf, hsign]
  unfold ArmInstruction.halfwordAccess
  revert hstore
  cases opcode.getLsbD 20 <;> cases opcode.getLsbD 6 <;> cases opcode.getLsbD 5 <;> decide

/-- The values of base and offset are taken before an instruction is refused. -/
theorem follows_attempt_get {cells : Cells} {x : HostM Flow} {refusal? : Option Unpredictable}
    {g : Cpu → StepM Flow} (k : Follows cells cpu x (attempt opcode refusal? (g cpu))) :
    Follows cells cpu x (attempt opcode refusal? (get >>= g)) := by
  cases refusal? with
  | none => exact k
  | some reason => exact k

theorem follows_armHalfwordOffset {f : Word → HostM α} {y : StepM α}
    (k : Follows cpu.cells cpu
      (f ((ArmInstruction.ofHalfwordTransfer opcode).offset.value cpu)) y) :
    Follows cpu.cells cpu (armHalfwordOffset opcode >>= f) y := by
  have hhigh := getBits_field opcode 8 11 4 (by decide)
  have hlow := getBits_field opcode 0 3 4 (by decide)
  have hshift : shl ((opcode.extractLsb' 8 4).setWidth 32 : Word) 4 = .ok _ :=
    shl_of_lt (by decide)
  -- the two halves of the offset come together to a byte
  have happend : ((opcode.extractLsb' 8 4).setWidth 32 : Word) <<< 4 |||
      (opcode.extractLsb' 0 4).setWidth 32 =
        ((opcode.extractLsb' 8 4 ++ opcode.extractLsb' 0 4 :
          BitVec 8).setWidth 12).setWidth 32 := by
    generalize opcode.extractLsb' 8 4 = high
    generalize opcode.extractLsb' 0 4 = low
    revert high low
    decide
  unfold ArmInstruction.ofHalfwordTransfer at k
  simp only [armHalfwordOffset, getBit_of_lt, Nat.reduceLT, check_ok, pure_bind]
  by_cases himmediate : opcode.getLsbD 22 = true
  · simp only [himmediate, if_true, hhigh, hlow, hshift, happend, check_ok, pure_bind,
      Offset.value] at k ⊢
    exact k
  · have hvalue (register : Register) :
        (Offset.register register .lsl 0).value cpu = cpu.read register := rfl
    simp only [himmediate, if_false, Bool.false_eq_true, armRegister_of_lt, Nat.reduceLT, check_ok,
      pure_bind, hvalue] at k ⊢
    exact follows_lookRead _ k

theorem follows_armHalfwordTransfer (h : ArmKind.ofOpcode opcode = .halfwordTransfer) :
    Follows cpu.cells cpu (armHalfwordTransfer opcode)
      (attempt opcode (ArmInstruction.ofHalfwordTransfer opcode).refusal?
        (ArmInstruction.ofHalfwordTransfer opcode).execute) := by
  have hcode := getBits_field opcode 5 6 2 (by decide)
  have haccess := ofAccess_halfwordAccess opcode h
  -- no word is loaded, so that no load exchanges the instruction set
  have hword : ArmInstruction.halfwordAccess opcode ≠ .load .word := by
    unfold ArmInstruction.halfwordAccess
    cases opcode.getLsbD 20 <;> cases opcode.getLsbD 6 <;> cases opcode.getLsbD 5 <;> decide
  unfold armHalfwordTransfer
  refine follows_attempt_get opcode (follows_armHalfwordOffset opcode ?_)
  refine follows_check hcode ?_
  refine follows_armTransfer opcode (ArmInstruction.ofHalfwordTransfer opcode) _ rfl rfl rfl rfl
    haccess fun format hload _ => ?_
  constructor
  · intro hexchange
    exact absurd hexchange Bool.false_ne_true
  · rintro rfl
    exact absurd hload hword

theorem follows_armOffset {f : Word → HostM α} {y : StepM α}
    (k : Follows cpu.cells cpu (f ((ArmInstruction.ofSingleTransfer opcode).offset.value cpu)) y) :
    Follows cpu.cells cpu (armOffset opcode >>= f) y := by
  have hkind := getBits_field opcode 5 6 2 (by decide)
  have hamount := getBits_field opcode 7 11 5 (by decide)
  have himmediate := getBits_field opcode 0 11 12 (by decide)
  unfold ArmInstruction.ofSingleTransfer at k
  simp only [armOffset, getBit_of_lt, Nat.reduceLT, check_ok, pure_bind]
  -- a shifted register or twelve bits of the opcode
  by_cases hregister : opcode.getLsbD 25 = true
  · simp only [hregister, if_true, hkind, hamount, armRegister_of_lt, Nat.reduceLT, check_ok,
      pure_bind, bind_assoc, shiftKindOf_field] at k ⊢
    refine follows_lookRead _ (follows_look (Cells.carry_cells cpu) ?_)
    exact follows_check (shiftByImmediate_field _ _ _ _) k
  · simp only [hregister, if_false, Bool.false_eq_true, himmediate, check_ok, pure_bind] at k ⊢
    exact k

theorem follows_armSingleTransfer :
    Follows cpu.cells cpu (armSingleTransfer opcode)
      (attempt opcode (ArmInstruction.ofSingleTransfer opcode).refusal?
        (ArmInstruction.ofSingleTransfer opcode).execute) := by
  have haccess := ofAccess_byteOrWord (opcode.getLsbD 22) (opcode.getLsbD 20)
  unfold armSingleTransfer
  refine follows_attempt_get opcode (follows_armOffset opcode ?_)
  simp only [getBit_of_lt, Nat.reduceLT, check_ok, pure_bind]
  refine follows_armTransfer opcode (ArmInstruction.ofSingleTransfer opcode) _ rfl rfl rfl rfl
    haccess fun format hload _ => ?_
  -- a load has the format of its bit 22, which is the whole word if the bit is clear
  have hopcode : (if opcode.getLsbD 22 then .ofByte (opcode.getLsbD 20)
      else .ofWord (opcode.getLsbD 20)) = Access.load format := hload
  rw [hopcode] at haccess
  have hsame : format = if opcode.getLsbD 22 then .byte else .word := congrArg Prod.snd haccess
  rw [← hsame, beq_iff_eq]

theorem follows_armBlockTransfer :
    Follows cpu.cells cpu (armBlockTransfer opcode)
      (attempt opcode (ArmInstruction.ofBlockTransfer opcode).refusal?
        (ArmInstruction.ofBlockTransfer opcode).execute) := by
  have hlist := getBits_field opcode 0 15 16 (by decide)
  have hback : ((opcode.extractLsb' 0 16).setWidth 32).setWidth 16 = opcode.extractLsb' 0 16 := by
    rw [BitVec.setWidth_setWidth_of_le _ (by decide), BitVec.setWidth_eq]
  simp only [armBlockTransfer, getBit_of_lt, armRegister_of_lt, Nat.reduceLT, hlist, hback,
    check_ok, pure_bind]
  exact follows_blockTransfer (ArmInstruction.ofBlockTransfer opcode) opcode

/-! ### Following branches -/

theorem follows_armBranch :
    Follows cpu.cells cpu (armBranch opcode)
      (liftM (ArmInstruction.executeBranch (opcode.getLsbD 24) (opcode.extractLsb' 0 24))) := by
  have hfield := getBits_field opcode 0 23 24 (by decide)
  -- the offset is shifted as a word and extended from bit 25
  have hshift : shl ((opcode.extractLsb' 0 24).setWidth 32 : Word) 2 = .ok _ :=
    shl_of_lt (by decide)
  have hdistance : signExtend (((opcode.extractLsb' 0 24).setWidth 32 : Word) <<< 2) 26 =
      .ok (ArmInstruction.branchDistance (opcode.extractLsb' 0 24)) :=
    signExtend_shl_field _ 2 (by decide) (by decide)
  simp only [armBranch, getBit_of_lt, Nat.reduceLT, hfield, hshift, hdistance, check_ok, pure_bind,
    ArmInstruction.executeBranch, liftM_bind]
  refine follows_lookRead .pc (follows_get ?_)
  by_cases hlink : opcode.getLsbD 24 = true
  · simp only [hlink, if_true, liftM_bind]
    refine follows_bind (follows_writeRegister_modify Register.lr_ne_pc _) fun _ c => ?_
    exact follows_branchTo _
  · simp only [hlink, if_false, Bool.false_eq_true]
    exact follows_branchTo _

theorem follows_armBranchExchange :
    Follows cpu.cells cpu (armBranchExchange opcode)
      (ArmInstruction.branchExchange (ArmInstruction.registerAt opcode 0)).execute := by
  simp only [armBranchExchange, armRegister_of_lt, Nat.reduceLT, check_ok, pure_bind]
  exact follows_lookRead _ (follows_get (follows_branchExchange _))

/-! ### Following the dispatch -/

/-- What the processor does for an opcode that is no instruction. -/
def rejectUndefined (opcode : Word) : StepM Flow := do
  let cpu ← get
  throw (.undefinedInstruction opcode cpu.fetchAddress cpu.instructionSet)

theorem follows_refuseUndefined :
    Follows cpu.cells cpu (refuseUndefined opcode) (rejectUndefined opcode) := by
  refine follows_look (Cells.fetchAddress_cells cpu) (follows_get ?_)
  refine follows_look (Cells.instructionSet_cells cpu) ?_
  exact follows_fail _

/-- Performs the instruction that an opcode encodes. -/
def performArm (opcode : Word) : StepM Flow :=
  match ArmInstruction.ofOpcode? opcode with
  | none => rejectUndefined opcode
  | some instruction => attempt opcode instruction.refusal? instruction.execute

theorem follows_armSoftwareInterrupt :
    Follows cpu.cells cpu (armPerform opcode .softwareInterrupt)
      (ArmInstruction.softwareInterrupt (opcode.extractLsb' 0 24)).execute :=
  follows_bind (follows_raise .softwareInterrupt) fun _ _ => follows_pure Flow.jump

/-- What the table has for an opcode follows the instruction of the opcode. -/
theorem follows_armDispatch :
    Follows cpu.cells cpu (armDispatch opcode) (performArm opcode) := by
  have hlookup := lookup_armTable opcode
  have htable : armDispatch opcode =
      (check (do lookup (← armTable) (← armIndex opcode)) >>= armPerform opcode) := by
    simp only [armDispatch, check_bind, bind_assoc]
  rw [htable]
  refine follows_check hlookup ?_
  unfold performArm ArmInstruction.ofOpcode?
  -- kind by kind, and each is followed by its own lemma
  cases hkind : ArmKind.ofOpcode opcode with
  | dataProcessing => exact follows_armDataProcessing opcode
  | readStatus => exact follows_armReadStatus opcode
  | writeStatus => exact follows_armWriteStatus opcode
  | multiply => exact follows_armMultiply opcode
  | multiplyLong => exact follows_armMultiplyLong opcode
  | swap => exact follows_armSwap opcode
  | branchExchange => exact follows_armBranchExchange opcode
  | halfwordTransfer => exact follows_armHalfwordTransfer opcode hkind
  | singleTransfer => exact follows_armSingleTransfer opcode
  | blockTransfer => exact follows_armBlockTransfer opcode
  | branch => exact follows_armBranch opcode
  | softwareInterrupt => exact follows_armSoftwareInterrupt opcode
  | undefined => exact follows_refuseUndefined opcode

end Armv4t.Trapping

import Armv4t.Disassembly
import Armv4t.Proofs.Encoding
import Armv4t.Proofs.Reading

/-!
# Block transfers read back from their text

The text of a block transfer says everything that its opcode does.  Condition and transfer are read
back from the line (`BlockTransfer.ofText?_text`), where the mnemonic holds the direction of the
transfer, the addressing mode and the condition, and the operands hold the base, the marks and the
list.  The list is read by expanding its single registers and ranges.

Since an opcode of the kind is put together of these parts (`ArmInstruction.eq_of_blockTransfer`),
**no two block transfers are written alike, and none of them depends on its address**
(`disassembleArm_blockTransfer`).
-/

namespace Armv4t

open Assembly

/-! ### The parts of an opcode -/

/-- Bits of a field that is the same in two words are the same. -/
theorem getLsbD_eq_of_extractLsb' {w start length : Nat} {a b : BitVec w}
    (h : a.extractLsb' start length = b.extractLsb' start length) {i : Nat} (hi : start ≤ i)
    (hi' : i < start + length) : a.getLsbD i = b.getLsbD i := by
  have hbit := congrArg (BitVec.getLsbD · (i - start)) h
  simpa [BitVec.getLsbD_extractLsb', show i - start < length by omega,
    show start + (i - start) = i by omega] using hbit

theorem Register.ofField_injective {a b : BitVec 4} (h : ofField a = ofField b) : a = b := by
  have hindex := congrArg index h
  unfold ofField at hindex
  rw [index_ofIndex, index_ofIndex] at hindex
  exact BitVec.eq_of_toFin_eq hindex

theorem Condition.ofField_injective : ∀ a b : BitVec 4, ofField a = ofField b → a = b := by
  decide

theorem ArmKind.ofRegisterSpace_ne_blockTransfer (high : BitVec 8) (low : BitVec 4) :
    ofRegisterSpace high low ≠ .blockTransfer := by
  unfold ofRegisterSpace
  split_ifs
  all_goals exact ArmKind.noConfusion

/-- Bits 27 to 25 of a block transfer. -/
theorem ArmKind.space_of_blockTransfer {opcode : Word} (h : ofOpcode opcode = .blockTransfer) :
    opcode.extractLsb' 25 3 = 0b100#3 := by
  have hspaces : ∀ space : BitVec 3, space = 0 ∨ space = 1 ∨ space = 2 ∨ space = 3 ∨ space = 4 ∨
      space = 5 ∨ space = 6 ∨ space = 7 := by decide
  -- the top bits choose one of eight spaces, and only one of them holds block transfers
  rcases hspaces (opcode.extractLsb' 25 3) with hs | hs | hs | hs | hs | hs | hs | hs
  all_goals
    have hkind := ofOpcode_of_space hs
    rw [h] at hkind
  · exact absurd hkind.symm (ofRegisterSpace_ne_blockTransfer _ _)
  · split_ifs at hkind <;> cases hkind
  · cases hkind
  · split_ifs at hkind <;> cases hkind
  · exact hs
  · cases hkind
  · cases hkind
  · split_ifs at hkind <;> cases hkind

/-- An opcode of a block transfer is determined by its condition and what it says. -/
theorem ArmInstruction.eq_of_blockTransfer {a b : Word}
    (ha : ArmKind.ofOpcode a = .blockTransfer) (hb : ArmKind.ofOpcode b = .blockTransfer)
    (hc : condition a = condition b) (h : ofBlockTransfer a = ofBlockTransfer b) : a = b := by
  have hcondition : a.extractLsb' 28 4 = b.extractLsb' 28 4 := Condition.ofField_injective _ _ hc
  have hspace : a.extractLsb' 25 3 = b.extractLsb' 25 3 :=
    (ArmKind.space_of_blockTransfer ha).trans (ArmKind.space_of_blockTransfer hb).symm
  have hbase : a.extractLsb' 16 4 = b.extractLsb' 16 4 :=
    Register.ofField_injective (congrArg BlockTransfer.base h)
  have hlist : a.extractLsb' 0 16 = b.extractLsb' 0 16 := congrArg BlockTransfer.list h
  have hload : a.getLsbD 20 = b.getLsbD 20 := congrArg BlockTransfer.load h
  have hwriteBack : a.getLsbD 21 = b.getLsbD 21 := congrArg BlockTransfer.writeBack h
  have hmark : a.getLsbD 22 = b.getLsbD 22 := congrArg BlockTransfer.mark h
  have hup : a.getLsbD 23 = b.getLsbD 23 := congrArg BlockTransfer.up h
  have hpre : a.getLsbD 24 = b.getLsbD 24 := congrArg BlockTransfer.pre h
  -- the fields, and the space that all block transfers share, are the whole word
  apply BitVec.eq_of_getLsbD_eq
  intro i hi
  rcases (by omega : i < 16 ∨ 16 ≤ i ∧ i < 20 ∨ i = 20 ∨ i = 21 ∨ i = 22 ∨ i = 23 ∨ i = 24 ∨
    25 ≤ i ∧ i < 28 ∨ 28 ≤ i) with h | h | rfl | rfl | rfl | rfl | rfl | h | h
  · exact getLsbD_eq_of_extractLsb' hlist (Nat.zero_le i) (by omega)
  · exact getLsbD_eq_of_extractLsb' hbase h.1 h.2
  · exact hload
  · exact hwriteBack
  · exact hmark
  · exact hup
  · exact hpre
  · exact getLsbD_eq_of_extractLsb' hspace h.1 h.2
  · exact getLsbD_eq_of_extractLsb' hcondition h hi

namespace BlockTransfer

/-! ### Reading the line -/

/-- The condition, and whether the transfer goes up and leaves out the word at its base. -/
def mode? : List Char → Option (Condition × Bool × Bool)
  | 'i' :: 'a' :: suffix => (Condition.ofText? suffix).map (·, true, false)
  | 'i' :: 'b' :: suffix => (Condition.ofText? suffix).map (·, true, true)
  | 'd' :: 'a' :: suffix => (Condition.ofText? suffix).map (·, false, false)
  | 'd' :: 'b' :: suffix => (Condition.ofText? suffix).map (·, false, true)
  | _ => none

/-- The same, and whether the transfer is a load. -/
def mnemonic? : List Char → Option (Bool × Condition × Bool × Bool)
  | 'l' :: 'd' :: 'm' :: mode => (mode? mode).map (true, ·)
  | 's' :: 't' :: 'm' :: mode => (mode? mode).map (false, ·)
  | _ => none

/-- The base and whether it is written back. -/
def base? : Operand → Option (Register × Bool)
  | .register base => some (base, false)
  | .base base => some (base, true)
  | _ => none

/-- The field in which the bits of the given registers are set. -/
def field (registers : List Register) : BitVec 16 :=
  registers.foldr (fun register list => BitVec.twoPow 16 register.index ||| list) 0

/-- The condition and the block transfer that a line says. -/
def ofLine? (line : Line) : Option (Condition × BlockTransfer) := do
  let (load, condition, up, pre) ← mnemonic? line.mnemonic.toList
  let (base, writeBack) ← base? (← line.operands.head?)
  return (condition,
    { load := load
      base := base
      list := field (line.operands.tail.flatMap Operand.registers)
      up := up
      pre := pre
      writeBack := writeBack
      mark := line.operands.contains .userMark })

/-- What is written before the blank. -/
def mnemonic (transfer : BlockTransfer) (condition : Condition) : String :=
  (if transfer.load then "ldm" else "stm") ++ transfer.modeText ++ condition.text

/-- The line that a block transfer is written as. -/
def line (transfer : BlockTransfer) (condition : Condition) : Line where
  mnemonic := transfer.mnemonic condition
  operands :=
    (if transfer.writeBack then .base transfer.base else .register transfer.base) ::
      (listOperands transfer.registers ++ if transfer.mark then [.userMark] else [])

theorem isWord_mnemonic (transfer : BlockTransfer) (condition : Condition) :
    IsWord (transfer.mnemonic condition) := by
  apply IsWord.append _ (lacks_conditionText condition)
  unfold modeText
  cases transfer.load <;> cases transfer.up <;> cases transfer.pre <;> decide

theorem ofText?_text (transfer : BlockTransfer) (condition : Condition) :
    Line.ofText? (transfer.text condition) = some (transfer.line condition) := by
  have hblank : IsGap " " := by decide
  have hcomma : IsGap ", " := by decide
  have hstart : Line.ofText? (transfer.mnemonic condition ++ " " ++ transfer.base.text ++
      if transfer.writeBack then "!" else "") = some ⟨transfer.mnemonic condition,
        [if transfer.writeBack then .base transfer.base else .register transfer.base]⟩ := by
    rw [String.append_assoc]
    apply Line.ofText?_mnemonic (transfer.isWord_mnemonic condition) hblank
    cases transfer.writeBack
    · rw [if_neg Bool.false_ne_true, String.append_empty]
      exact operands?_register transfer.base
    · exact operands?_base transfer.base
  unfold text line
  show Line.ofText? (transfer.mnemonic condition ++ " " ++ _ ++ _ ++ ", " ++ _ ++ _) = _
  cases transfer.mark
  · rw [if_neg Bool.false_ne_true, String.append_empty, if_neg Bool.false_ne_true, List.append_nil]
    exact Line.ofText?_gap hstart hcomma (operands?_registerList transfer.registers)
  · -- the closing brace stands between the list and the mark
    rw [registerList, ← String.append_assoc]
    have hlist := Line.ofText?_gap hstart hcomma
      (operands?_open (show IsGap "\x7b" by decide) (operands?_runs (runs transfer.registers)))
    exact Line.ofText?_gap hlist (show IsGap "\x7d" by decide)
      (show operands? "^" = some [.userMark] by decide)

theorem mnemonic?_mnemonic (transfer : BlockTransfer) (condition : Condition) :
    mnemonic? (transfer.mnemonic condition).toList =
      some (transfer.load, condition, transfer.up, transfer.pre) := by
  unfold mnemonic modeText
  rw [String.toList_append]
  cases transfer.load <;> cases transfer.up <;> cases transfer.pre
  all_goals
    show Option.map _ (Option.map _ (Condition.ofText? condition.text.toList)) = _
    rw [Condition.ofText?_text]
    rfl

theorem getLsbD_field (registers : List Register) (register : Register) :
    (field registers).getLsbD register.index = decide (register ∈ registers) := by
  induction registers with
  | nil => simp [field]
  | cons first rest ih =>
    have heq : (first.index.val = register.index.val) = (register = first) :=
      propext ⟨fun h => (Register.index_injective (Fin.ext h)).symm, fun h => h ▸ rfl⟩
    show (BitVec.twoPow 16 first.index ||| field rest).getLsbD register.index = _
    rw [BitVec.getLsbD_or, BitVec.getLsbD_twoPow, ih]
    simp [heq, first.index.isLt]

theorem field_registers (transfer : BlockTransfer) : field transfer.registers = transfer.list := by
  apply BitVec.eq_of_getLsbD_eq
  intro i hi
  have hindex : (Register.ofIndex ⟨i, hi⟩).index.val = i := by
    rw [Register.index_ofIndex]
  rw [← hindex, getLsbD_field, registers]
  simp [Register.mem_all, lists]

theorem userMark_notMem_listOperands (registers : List Register) :
    .userMark ∉ listOperands registers := by
  intro h
  obtain ⟨⟨first, last⟩, -, hrun⟩ := List.mem_flatMap.1 h
  unfold runOperands at hrun
  split at hrun
  all_goals simp at hrun

/-- The operands behind the base stand for the listed registers. -/
theorem registers_line (transfer : BlockTransfer) (condition : Condition) :
    (transfer.line condition).operands.tail.flatMap Operand.registers = transfer.registers := by
  have hmark :
      (if transfer.mark then [Operand.userMark] else []).flatMap Operand.registers = [] := by
    cases transfer.mark <;> rfl
  show (listOperands transfer.registers ++ _).flatMap _ = _
  rw [List.flatMap_append, registers_listOperands, hmark, List.append_nil]

/-- Reading the line of a block transfer gives its condition and the transfer. -/
theorem ofLine?_line (transfer : BlockTransfer) (condition : Condition) :
    ofLine? (transfer.line condition) = some (condition, transfer) := by
  -- the mark is written for itself and by no register of the list
  have hmark : (transfer.line condition).operands.contains .userMark = transfer.mark := by
    have hlist := userMark_notMem_listOperands transfer.registers
    unfold line
    cases transfer.writeBack <;> cases transfer.mark <;> simp [hlist]
  -- the sign of write-back stands behind the base
  have hbase : base? (if transfer.writeBack then .base transfer.base else .register transfer.base) =
      some (transfer.base, transfer.writeBack) := by
    cases transfer.writeBack <;> rfl
  unfold ofLine?
  rw [registers_line, field_registers, hmark]
  show (mnemonic? (transfer.mnemonic condition).toList).bind _ = _
  rw [mnemonic?_mnemonic]
  show (base? _).bind _ = _
  rw [hbase]
  rfl

/-- The condition and the block transfer that a text says. -/
def ofText? (text : String) : Option (Condition × BlockTransfer) :=
  (Line.ofText? text).bind ofLine?

/-- The registers that the operands of a text behind the first stand for. -/
def listed? (text : String) : Option (List Register) :=
  (Line.ofText? text).map fun line => line.operands.tail.flatMap Operand.registers

/-- The listed registers ascend. -/
theorem pairwise_registers (transfer : BlockTransfer) :
    transfer.registers.Pairwise (·.index < ·.index) := by
  have hall : Register.all.Pairwise (·.index < ·.index) := by decide
  exact hall.filter _

end BlockTransfer

/-- Block transfers are read back from their text.  Condition, direction, addressing mode, base,
marks and list are read from the line; the single registers and ranges of its list expand to exactly
the registers whose bits are set, each once and in ascending order; and two of these opcodes have
the same text, at whatever addresses, only if they are the same. -/
theorem disassembleArm_blockTransfer {opcode : Word}
    (hk : ArmKind.ofOpcode opcode = .blockTransfer) (address : Word) :
    let text := disassembleArm opcode address
    let transfer := ArmInstruction.ofBlockTransfer opcode
    BlockTransfer.ofText? text = some (ArmInstruction.condition opcode, transfer) ∧
      BlockTransfer.listed? text = some transfer.registers ∧
      transfer.registers.Pairwise (·.index < ·.index) ∧
      (∀ register : Register,
        register ∈ transfer.registers ↔ opcode.getLsbD register.index = true) ∧
      ∀ (other another : Word), ArmKind.ofOpcode other = .blockTransfer →
        (disassembleArm other another = text ↔ other = opcode) := by
  -- the text is that of the transfer and its condition, wherever it stands
  have htext {word : Word} (h : ArmKind.ofOpcode word = .blockTransfer) (place : Word) :
      disassembleArm word place =
        (ArmInstruction.ofBlockTransfer word).text (ArmInstruction.condition word) := by
    unfold disassembleArm ArmInstruction.ofOpcode?
    rw [h]
    rfl
  have hread {word : Word} (h : ArmKind.ofOpcode word = .blockTransfer) (place : Word) :
      BlockTransfer.ofText? (disassembleArm word place) =
        some (ArmInstruction.condition word, ArmInstruction.ofBlockTransfer word) := by
    unfold BlockTransfer.ofText?
    rw [htext h, BlockTransfer.ofText?_text]
    exact BlockTransfer.ofLine?_line _ _
  intro text transfer
  refine ⟨hread hk address, ?_, transfer.pairwise_registers, ?_, ?_⟩
  · unfold BlockTransfer.listed?
    rw [show text = _ from htext hk address, BlockTransfer.ofText?_text]
    exact congrArg some (BlockTransfer.registers_line _ _)
  · intro register
    -- a register is listed by the bit of its number
    have hbit : (opcode.extractLsb' 0 16).getLsbD register.index =
        opcode.getLsbD register.index := by
      simp
    rw [BlockTransfer.registers, List.mem_filter, ← hbit]
    exact and_iff_right register.mem_all
  · intro other another hother
    constructor
    -- equal texts say the same transfer under the same condition
    · intro hsame
      have hparts := (hread hother another).symm.trans ((congrArg _ hsame).trans (hread hk address))
      obtain ⟨hcondition, htransfer⟩ := Prod.mk.inj (Option.some.inj hparts)
      exact ArmInstruction.eq_of_blockTransfer hother hk hcondition htransfer
    · rintro rfl
      exact (htext hk another).trans (htext hk address).symm

/-- The return from an exception with its saved registers, and the same transfer without r0. -/
theorem disassembleArm_blockTransfer_restore :
    let text := disassembleArm 0xE8FDC00F 0x100
    ArmKind.ofOpcode 0xE8FDC00F = .blockTransfer ∧ ArmKind.ofOpcode 0xE8FDC00E = .blockTransfer ∧
      text = "ldmia sp!, \x7br0-r3, lr, pc\x7d^" ∧
      BlockTransfer.listed? text = some [.low 0, .low 1, .low 2, .low 3, .lr, .pc] ∧
      disassembleArm 0xE8FDC00E 0x100 ≠ text := by
  intro text
  have hk : ArmKind.ofOpcode 0xE8FDC00F = .blockTransfer := by decide
  have hother : ArmKind.ofOpcode 0xE8FDC00E = .blockTransfer := by decide
  obtain ⟨-, hlisted, -, -, hdiffer⟩ := disassembleArm_blockTransfer hk 0x100
  refine ⟨hk, hother, by decide, hlisted.trans (by decide), ?_⟩
  exact fun hsame => absurd ((hdiffer _ _ hother).1 hsame) (by decide)

end Armv4t

import Armv4t.Cpu.Lemmas
import Armv4t.Proofs.Ensures
import Mathlib.Logic.Function.Basic

/-!
# The register file without copies

The architecture has 31 register cells, five cells of saved status and a current status, and moves
nothing when the mode changes: a register name and a mode select a cell.  `RegisterFile` is that
register file and `RegisterFile.apply` what each write does to it.  A `Cpu`, whose registers are
held in a view and in stored copies, agrees with a register file when every way of reading it yields
the cell that the architecture selects (`Cpu.Agrees`).  One write keeps agreement
(`agrees_perform`), and so **every sequence of writes does** (`agrees_performWrites`).
-/

namespace Armv4t

/-! ### Cells -/

/-- The register cells: R0 to R7 and the program counter once, R8 to R12 once for FIQ mode and once
for the other modes together, stack pointer and link register once per bank. -/
inductive Cell where
  | low (position : LowRegister)
  | common (position : Fin 5)
  | fiq (position : Fin 5)
  | sp (bank : Bank)
  | lr (bank : Bank)
  | pc
deriving DecidableEq, Repr

/-- The cell that a register names in a mode. -/
def Cell.of (mode : Mode) : Register → Cell
  | .low position => .low position
  | .high position => if mode = .fiq then .fiq position else .common position
  | .sp => .sp mode.bank
  | .lr => .lr mode.bank
  | .pc => .pc

/-- A register in two modes and another register name the same cell exactly when the registers are
the same and the two modes share it. -/
theorem Cell.of_eq_of_iff (mode other : Mode) (register read : Register) :
    Cell.of other read = Cell.of mode register ↔
      read = register ∧ Cpu.SameCell mode other register := by
  cases register <;> cases read <;>
    by_cases hm : mode = .fiq <;> by_cases ho : other = .fiq <;>
      simp_all [Cell.of, Cpu.SameCell, eq_comm]

/-- The five banks that have a saved status. -/
abbrev SavedBank := { bank : Bank // bank ≠ .user }

/-- The bank whose saved status a mode sees, if it sees one. -/
def Mode.savedBank? (mode : Mode) : Option SavedBank :=
  if h : mode.bank = .user then none else some ⟨mode.bank, h⟩

/-- The registers other than the program counter. -/
abbrev GeneralRegister := { register : Register // register ≠ .pc }

/-- The register file of the architecture. -/
structure RegisterFile where
  cells : Cell → Word
  saved : SavedBank → Word
  status : Psr

/-! ### Writes -/

/-- A write to the registers or to a status register. -/
inductive RegisterWrite where
  /-- A register of the current mode. -/
  | register (target : GeneralRegister) (value : Word)
  /-- A register of User mode. -/
  | userRegister (target : GeneralRegister) (value : Word)
  /-- The saved status of the current mode. -/
  | saved (value : Word)
  /-- The current status. -/
  | status (word : Word)

/-- What a write does to the register file of the architecture: it changes one cell, or the saved
status of the current mode if there is one, or the current status.  A word that names no mode is
refused as status. -/
def RegisterFile.apply (file : RegisterFile) :
    RegisterWrite → Except Fault Unit × RegisterFile
  | .register target value =>
    (.ok (), { file with
      cells := Function.update file.cells (.of file.status.mode target) value })
  | .userRegister target value =>
    (.ok (), { file with cells := Function.update file.cells (.of .user target) value })
  | .saved value =>
    match file.status.mode.savedBank? with
    | some bank => (.ok (), { file with saved := Function.update file.saved bank value })
    | none => (.ok (), file)
  | .status word =>
    match Psr.ofWord? word with
    | some psr => (.ok (), { file with status := psr })
    | none => (.error (.invalidMode (Psr.modeField word)), file)

/-- What a sequence of writes does, with the result of each. -/
def RegisterFile.applyAll (file : RegisterFile) :
    List RegisterWrite → List (Except Fault Unit) × RegisterFile
  | [] => ([], file)
  | write :: rest =>
    let (result, file) := file.apply write
    let (results, file) := file.applyAll rest
    (result :: results, file)

/-- Performs a write on a processor.  A mode that has no saved status drops the value, which is
reported. -/
def RegisterWrite.perform : RegisterWrite → StepM Unit
  | register target value => CpuM.writeRegister target value
  | userRegister target value => modify (·.writeIn .user target value)
  | saved value => do
    let cpu ← get
    match cpu.spsr? with
    | some _ => set (cpu.withSpsr value)
    | none => CpuM.note (.savedStatusDropped cpu.mode value)
  | status word => StepM.installPsrWord word

/-- Performs writes one after the other, going on after a refused one. -/
def performWrites : List RegisterWrite → CpuM (List (Except Fault Unit))
  | [] => return []
  | write :: rest => do
    let result ← write.perform.run
    let results ← performWrites rest
    return result :: results

/-! ### Agreement -/

/-- A processor agrees with a register file when each way of reading it yields the cell that the
architecture selects. -/
structure Cpu.Agrees (cpu : Cpu) (file : RegisterFile) : Prop where
  status : cpu.cpsr = file.status
  readIn (mode : Mode) (register : Register) :
    cpu.readIn mode register = file.cells (.of mode register)
  spsrs (bank : SavedBank) : cpu.spsrs.get bank = file.saved bank

namespace Cpu.Agrees

variable {cpu : Cpu} {file : RegisterFile}

theorem mode (h : cpu.Agrees file) : cpu.mode = file.status.mode :=
  congrArg Psr.mode h.status

/-- A register of the current mode is its cell in the current mode. -/
theorem read (h : cpu.Agrees file) (register : Register) :
    cpu.read register = file.cells (.of file.status.mode register) := by
  rw [← readIn_mode, h.readIn, h.mode]

/-- The saved status of the current mode is that of its bank, and User and System mode have none. -/
theorem spsr? (h : cpu.Agrees file) :
    cpu.spsr? = file.status.mode.savedBank?.map file.saved := by
  unfold Cpu.spsr? Mode.savedBank?
  rw [h.mode]
  split_ifs with hu
  · rfl
  · exact congrArg some (h.spsrs ⟨file.status.mode.bank, hu⟩)

end Cpu.Agrees

/-- The mode whose registers lie in a bank. -/
def Bank.mode : Bank → Mode
  | .user => .user
  | .fiq => .fiq
  | .irq => .irq
  | .supervisor => .supervisor
  | .abort => .abort
  | .undefined => .undefined

@[simp] theorem Bank.bank_mode (bank : Bank) : bank.mode.bank = bank := by
  cases bank <;> rfl

/-- The register file that a processor holds. -/
def Cpu.registerFile (cpu : Cpu) : RegisterFile where
  cells
    | .low position => cpu.low.get position
    | .common position => (cpu.highIn .user).get position
    | .fiq position => (cpu.highIn .fiq).get position
    | .sp bank => (cpu.stackIn bank.mode).sp
    | .lr bank => (cpu.stackIn bank.mode).lr
    | .pc => cpu.pc
  saved bank := cpu.spsrs.get bank
  status := cpu.cpsr

theorem Cpu.agrees_registerFile (cpu : Cpu) : cpu.Agrees cpu.registerFile := by
  refine ⟨rfl, fun mode register => ?_, fun _ => rfl⟩
  cases register with
  | low position => rfl
  | high position =>
    -- the modes other than FIQ share one copy of R8 to R12, here read through User mode
    by_cases hm : mode = .fiq
    · simp only [Cpu.readIn, Cpu.registerFile, Cell.of, hm, if_pos]
    · have hu : cpu.highIn mode = cpu.highIn .user := cpu.highIn_eq_of_iff (by simp [hm])
      simp only [Cpu.readIn, Cpu.registerFile, Cell.of, hm, if_false, hu]
  | sp => exact congrArg StackPair.sp (cpu.stackIn_eq_of_bank_eq (by simp))
  | lr => exact congrArg StackPair.lr (cpu.stackIn_eq_of_bank_eq (by simp))
  | pc => rfl

/-! ### Writes keep agreement -/

namespace Cpu.Agrees

variable {cpu : Cpu} {file : RegisterFile}

/-- Writing a register through a mode changes the cell it names there. -/
theorem writeIn (h : cpu.Agrees file) (mode : Mode) (target : GeneralRegister) (value : Word) :
    (cpu.writeIn mode target value).Agrees
      { file with cells := Function.update file.cells (.of mode target) value } := by
  constructor
  · rw [cpsr_writeIn, h.status]
  · intro other read
    dsimp only
    -- the write is seen exactly where the architecture has the same cell
    rw [readIn_writeIn cpu mode value target.2, Function.update_apply, h.readIn]
    exact if_congr (Cell.of_eq_of_iff mode other target read).symm rfl rfl
  · intro bank
    rw [spsrs_writeIn, h.spsrs]

/-- Writing the saved status changes the cell of the current mode's bank. -/
theorem withSpsr (h : cpu.Agrees file) {bank : SavedBank}
    (hb : file.status.mode.savedBank? = some bank) (value : Word) :
    (cpu.withSpsr value).Agrees
      { file with saved := Function.update file.saved bank value } := by
  constructor
  · exact h.status
  · intro mode read
    rw [readIn_withSpsr, h.readIn]
  · intro other
    -- the bank of the saved status written is that of the mode of both
    have hbank : bank.1 = cpu.mode.bank := by
      unfold Mode.savedBank? at hb
      split_ifs at hb with hu
      rw [← Option.some.inj hb, h.mode]
    dsimp only
    rw [get_spsrs_withSpsr, Function.update_apply, h.spsrs]
    refine if_congr ?_ rfl rfl
    rw [← hbank, Subtype.ext_iff]
    exact and_iff_left other.2

/-- A change of status moves no cell. -/
theorem withPsr (h : cpu.Agrees file) (psr : Psr) :
    (cpu.withPsr psr).Agrees { file with status := psr } := by
  constructor
  · rfl
  · intro mode read
    rw [readIn_withPsr, h.readIn]
  · intro bank
    rw [spsrs_withPsr, h.spsrs]

end Cpu.Agrees

variable {cpu : Cpu} {file : RegisterFile}

/-- One write does to a processor what it does to the register file. -/
theorem agrees_perform (h : cpu.Agrees file) (write : RegisterWrite) :
    StepM.Ensures cpu write.perform fun result ended =>
      result = (file.apply write).1 ∧ ended.Agrees (file.apply write).2 := by
  cases write with
  | register target value =>
    refine StepM.ensures_lift (CpuM.ensures_writeRegister target value) ?_
    rintro ⟨⟩ d rfl
    refine ⟨rfl, ?_⟩
    rw [Cpu.write_eq_writeIn, h.mode]
    exact h.writeIn file.status.mode target value
  | userRegister target value =>
    exact StepM.ensures_modify ⟨rfl, h.writeIn .user target value⟩
  | saved value =>
    refine StepM.ensures_get_bind ?_
    unfold RegisterFile.apply
    rw [h.spsr?]
    cases hb : file.status.mode.savedBank? with
    | none =>
      refine StepM.ensures_lift (CpuM.ensures_note _) ?_
      rintro ⟨⟩ d rfl
      exact ⟨rfl, h⟩
    | some bank => exact StepM.ensures_set ⟨rfl, h.withSpsr hb value⟩
  | status word =>
    refine CpuM.Ensures.mono (StepM.ensures_installPsrWord word) fun result d hd => ?_
    unfold RegisterFile.apply
    dsimp only
    -- a word that names no mode changes neither side
    cases hw : Psr.ofWord? word with
    | none =>
      rw [hw] at hd
      obtain ⟨rfl, rfl⟩ := hd
      exact ⟨rfl, h⟩
    | some psr =>
      rw [hw] at hd
      obtain ⟨rfl, rfl⟩ := hd
      exact ⟨rfl, h.withPsr psr⟩

/-- Every sequence of writes keeps agreement, by induction on the sequence. -/
theorem ensures_performWrites (h : cpu.Agrees file) (writes : List RegisterWrite) :
    CpuM.Ensures cpu (performWrites writes) fun results ended =>
      results = (file.applyAll writes).1 ∧ ended.Agrees (file.applyAll writes).2 := by
  induction writes generalizing cpu file with
  | nil => exact CpuM.ensures_pure ⟨rfl, h⟩
  | cons write rest ih =>
    -- a refused write leaves processor and register file in agreement too
    refine CpuM.ensures_bind (agrees_perform h write) ?_
    rintro result d ⟨rfl, hd⟩
    refine CpuM.ensures_bind (ih hd) ?_
    rintro results e ⟨rfl, he⟩
    exact CpuM.ensures_pure ⟨rfl, he⟩

/-- **The banked registers refine the register file without copies.**  Whatever sequence of writes a
processor performs, the results are those of the register file that it held at the outset, and
afterwards every way of reading it yields the cell that the architecture selects. -/
theorem agrees_performWrites {σ : Type} (bus : Bus σ) (state : σ) (cpu : Cpu)
    (writes : List RegisterWrite) :
    let run := ((performWrites writes).run cpu).run bus state
    let ended := run.value.2
    let file := (cpu.registerFile.applyAll writes).2
    run.value.1 = (cpu.registerFile.applyAll writes).1 ∧
      ended.cpsr = file.status ∧
      (∀ mode register, ended.readIn mode register = file.cells (.of mode register)) ∧
      (∀ register, ended.read register = file.cells (.of file.status.mode register)) ∧
      (∀ register, ended.readIn .user register = file.cells (.of .user register)) ∧
      ended.spsr? = file.status.mode.savedBank?.map file.saved ∧
      ∀ bank : SavedBank, ended.spsrs.get bank = file.saved bank := by
  intro run ended file
  have h := (ensures_performWrites cpu.agrees_registerFile writes).run bus state
  obtain ⟨hresults, hagrees⟩ := h
  exact ⟨hresults, hagrees.status, hagrees.readIn, hagrees.read, hagrees.readIn .user,
    hagrees.spsr?, hagrees.spsrs⟩

end Armv4t

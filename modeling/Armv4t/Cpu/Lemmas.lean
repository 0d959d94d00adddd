import Armv4t.Cpu.Basic

/-!
# Laws of the register file

The register file as a set of cells: `Cpu.readIn mode register` is the cell that a register of a
mode names, and each operation is described by what it does to the cells.  Main statements: a write
changes the cells of its register in the modes that share it and no other (`readIn_writeIn`), and a
change of status moves nothing (`readIn_withPsr`).
-/

namespace Armv4t.Cpu

variable (cpu : Cpu)

/-! ### Register groups -/

/-- An element that is set is read back, and the others are as they were. -/
theorem get_set {α : Type} {n : Nat} (group : Vector α n) (position other : Fin n) (value : α) :
    (group.set position value).get other = if other = position then value else group.get other := by
  change (group.set position value)[other.val] = _
  rw [Vector.getElem_set]
  simp only [Fin.ext_iff, eq_comm]
  rfl

/-! ### Reading the current mode -/

@[simp] theorem highIn_mode : cpu.highIn cpu.mode = cpu.high := by
  simp [highIn]

@[simp] theorem stackIn_mode : cpu.stackIn cpu.mode = cpu.stack := by
  simp [stackIn]

/-- The registers of the current mode are those in the view. -/
@[simp] theorem readIn_mode (register : Register) :
    cpu.readIn cpu.mode register = cpu.read register := by
  cases register <;> simp [readIn, read]

/-! ### Writing the current mode -/

@[simp] theorem cpsr_write (register : Register) (value : Word) :
    (cpu.write register value).cpsr = cpu.cpsr := by
  cases register <;> rfl

@[simp] theorem mode_write (register : Register) (value : Word) :
    (cpu.write register value).mode = cpu.mode := by
  simp [mode]

@[simp] theorem instructionSet_write (register : Register) (value : Word) :
    (cpu.write register value).instructionSet = cpu.instructionSet := by
  simp [instructionSet]

@[simp] theorem spsrs_write (register : Register) (value : Word) :
    (cpu.write register value).spsrs = cpu.spsrs := by
  cases register <;> rfl

@[simp] theorem pc_write {register : Register} (value : Word) (h : register ≠ .pc) :
    (cpu.write register value).pc = cpu.pc := by
  cases register with
  | pc => exact absurd rfl h
  | _ => rfl

/-- A write is read back, and leaves the other registers alone. -/
theorem read_write {register : Register} (value : Word) (h : register ≠ .pc) (other : Register) :
    (cpu.write register value).read other =
      if other = register then value else cpu.read other := by
  cases register <;> cases other <;>
    simp_all [write, read, get_set]

/-! ### Cells -/

/-- Whether two modes see the same cell under the name of a register. -/
def SameCell (mode other : Mode) : Register → Prop
  | .high _ => mode = .fiq ↔ other = .fiq
  | .sp | .lr => mode.bank = other.bank
  | .low _ | .pc => True

instance (mode other : Mode) (register : Register) : Decidable (SameCell mode other register) := by
  cases register <;> unfold SameCell <;> infer_instance

theorem highIn_withHighIn (mode other : Mode) (values : Vector Word 5) :
    (cpu.withHighIn mode values).highIn other =
      if mode = .fiq ↔ other = .fiq then values else cpu.highIn other := by
  by_cases hm : mode = .fiq <;> by_cases ho : other = .fiq <;> by_cases hc : cpu.mode = .fiq <;>
    simp_all [withHighIn, highIn, Cpu.mode]

theorem stackIn_withStackIn (mode other : Mode) (pair : StackPair) :
    (cpu.withStackIn mode pair).stackIn other =
      if mode.bank = other.bank then pair else cpu.stackIn other := by
  by_cases hm : mode.bank = cpu.mode.bank <;> by_cases ho : other.bank = cpu.mode.bank <;>
    simp_all [withStackIn, stackIn, Cpu.mode, Banked.get_set, eq_comm]

@[simp] theorem highIn_withStackIn (mode other : Mode) (pair : StackPair) :
    (cpu.withStackIn mode pair).highIn other = cpu.highIn other := rfl

@[simp] theorem stackIn_withHighIn (mode other : Mode) (values : Vector Word 5) :
    (cpu.withHighIn mode values).stackIn other = cpu.stackIn other := rfl

/-! ### Changing the status -/

@[simp] theorem low_exchangeView (mode : Mode) : (cpu.exchangeView mode).low = cpu.low := by
  unfold exchangeView
  split <;> rfl

@[simp] theorem pc_exchangeView (mode : Mode) : (cpu.exchangeView mode).pc = cpu.pc := by
  unfold exchangeView
  split <;> rfl

@[simp] theorem spsrs_exchangeView (mode : Mode) : (cpu.exchangeView mode).spsrs = cpu.spsrs := by
  unfold exchangeView
  split <;> rfl

@[simp] theorem cpsr_withPsr (psr : Psr) : (cpu.withPsr psr).cpsr = psr := rfl

@[simp] theorem mode_withPsr (psr : Psr) : (cpu.withPsr psr).mode = psr.mode := rfl

@[simp] theorem instructionSet_withPsr (psr : Psr) :
    (cpu.withPsr psr).instructionSet = psr.instructionSet := rfl

@[simp] theorem low_withPsr (psr : Psr) : (cpu.withPsr psr).low = cpu.low :=
  cpu.low_exchangeView psr.mode

@[simp] theorem pc_withPsr (psr : Psr) : (cpu.withPsr psr).pc = cpu.pc :=
  cpu.pc_exchangeView psr.mode

@[simp] theorem spsrs_withPsr (psr : Psr) : (cpu.withPsr psr).spsrs = cpu.spsrs :=
  cpu.spsrs_exchangeView psr.mode

@[simp] theorem highIn_withPsr (psr : Psr) (mode : Mode) :
    (cpu.withPsr psr).highIn mode = cpu.highIn mode := by
  by_cases same : cpu.mode.bank = psr.mode.bank
  · have : cpu.mode = .fiq ↔ psr.mode = .fiq := by
      rw [← Mode.bank_eq_fiq_iff, ← Mode.bank_eq_fiq_iff, same]
    simp_all [highIn, withPsr, exchangeView, Cpu.mode]
  · by_cases hc : cpu.mode = .fiq <;> by_cases hp : psr.mode = .fiq <;>
      by_cases hm : mode = .fiq <;>
        simp_all [highIn, withPsr, exchangeView, storeView, loadView, Cpu.mode]

@[simp] theorem stackIn_withPsr (psr : Psr) (mode : Mode) :
    (cpu.withPsr psr).stackIn mode = cpu.stackIn mode := by
  by_cases same : cpu.mode.bank = psr.mode.bank
  · simp_all [stackIn, withPsr, exchangeView, Cpu.mode]
  · by_cases hp : mode.bank = psr.mode.bank <;> by_cases hm : mode.bank = cpu.mode.bank <;>
      simp_all [stackIn, withPsr, exchangeView, storeView, loadView, Cpu.mode, Banked.get_set]

theorem highIn_eq_of_iff {mode other : Mode} (same : mode = .fiq ↔ other = .fiq) :
    cpu.highIn mode = cpu.highIn other := by
  simp only [highIn, same]

theorem stackIn_eq_of_bank_eq {mode other : Mode} (same : mode.bank = other.bank) :
    cpu.stackIn mode = cpu.stackIn other := by
  simp only [stackIn, same]

/-- Modes that see the same cell under the name of a register read the same there. -/
theorem readIn_eq_of_sameCell {mode other : Mode} {register : Register}
    (same : SameCell mode other register) :
    cpu.readIn mode register = cpu.readIn other register := by
  cases register with
  | high position => exact congrArg (·.get position) (cpu.highIn_eq_of_iff same)
  | sp => exact congrArg StackPair.sp (cpu.stackIn_eq_of_bank_eq same)
  | lr => exact congrArg StackPair.lr (cpu.stackIn_eq_of_bank_eq same)
  | low position | pc => rfl

/-- A write through a mode changes the cell it names, in every mode that sees it, and no other. -/
theorem readIn_writeIn (mode : Mode) {register : Register} (value : Word) (h : register ≠ .pc)
    (other : Mode) (read : Register) :
    (cpu.writeIn mode register value).readIn other read =
      if read = register ∧ SameCell mode other register then value else cpu.readIn other read := by
  cases register with
  | pc => exact absurd rfl h
  | low position =>
    cases read with
    | low read =>
      simp [writeIn, write, readIn, SameCell, get_set]
    | _ => rfl
  | high position =>
    cases read with
    | high read =>
      simp only [writeIn, readIn, highIn_withHighIn, SameCell, Register.high.injEq]
      by_cases same : mode = .fiq ↔ other = .fiq
      · simp [same, cpu.highIn_eq_of_iff same, get_set]
      · simp [same]
    | _ => rfl
  | sp =>
    cases read with
    | sp =>
      simp only [writeIn, readIn, stackIn_withStackIn, SameCell, true_and]
      split <;> rfl
    | lr =>
      simp only [writeIn, readIn, stackIn_withStackIn, reduceCtorEq, false_and, if_false]
      split
      · next same => simp only [cpu.stackIn_eq_of_bank_eq same]
      · rfl
    | _ => rfl
  | lr =>
    cases read with
    | lr =>
      simp only [writeIn, readIn, stackIn_withStackIn, SameCell, true_and]
      split <;> rfl
    | sp =>
      simp only [writeIn, readIn, stackIn_withStackIn, reduceCtorEq, false_and, if_false]
      split
      · next same => simp only [cpu.stackIn_eq_of_bank_eq same]
      · rfl
    | _ => rfl

/-- A change of status leaves every cell as it was. -/
theorem readIn_withPsr (psr : Psr) (mode : Mode) (register : Register) :
    (cpu.withPsr psr).readIn mode register = cpu.readIn mode register := by
  cases register with
  | low position => exact congrArg (·.get position) (cpu.low_withPsr psr)
  | high position => exact congrArg (·.get position) (cpu.highIn_withPsr psr mode)
  | sp => exact congrArg StackPair.sp (cpu.stackIn_withPsr psr mode)
  | lr => exact congrArg StackPair.lr (cpu.stackIn_withPsr psr mode)
  | pc => exact cpu.pc_withPsr psr

/-! ### What each update does to the cells -/

/-- Writing a register of the current mode is writing it through the current mode. -/
theorem write_eq_writeIn {register : Register} (value : Word) :
    cpu.write register value = cpu.writeIn cpu.mode register value := by
  cases register <;> simp [write, writeIn, withHighIn, withStackIn]

theorem readIn_write {register : Register} (value : Word) (h : register ≠ .pc) (mode : Mode)
    (read : Register) :
    (cpu.write register value).readIn mode read =
      if read = register ∧ SameCell cpu.mode mode register then value
      else cpu.readIn mode read := by
  rw [write_eq_writeIn, readIn_writeIn cpu cpu.mode value h]

theorem readIn_withPc (pc : Word) (mode : Mode) {register : Register} (h : register ≠ .pc) :
    { cpu with pc := pc }.readIn mode register = cpu.readIn mode register := by
  cases register with
  | pc => exact absurd rfl h
  | _ => rfl

theorem read_withPc (pc : Word) {register : Register} (h : register ≠ .pc) :
    { cpu with pc := pc }.read register = cpu.read register := by
  cases register with
  | pc => exact absurd rfl h
  | _ => rfl

@[simp] theorem read_withFlags (flags : Flags) (register : Register) :
    (cpu.withFlags flags).read register = cpu.read register := by
  cases register <;> rfl

@[simp] theorem readIn_withFlags (flags : Flags) (mode : Mode) (register : Register) :
    (cpu.withFlags flags).readIn mode register = cpu.readIn mode register := by
  cases register <;> rfl

@[simp] theorem readIn_withInstructionSet (set : InstructionSet) (mode : Mode)
    (register : Register) :
    (cpu.withInstructionSet set).readIn mode register = cpu.readIn mode register := by
  cases register <;> rfl

@[simp] theorem readIn_withSpsr (value : Word) (mode : Mode) (register : Register) :
    (cpu.withSpsr value).readIn mode register = cpu.readIn mode register := by
  cases register <;> rfl

@[simp] theorem cpsr_writeIn (mode : Mode) (register : Register) (value : Word) :
    (cpu.writeIn mode register value).cpsr = cpu.cpsr := by
  cases register <;> rfl

@[simp] theorem spsrs_writeIn (mode : Mode) (register : Register) (value : Word) :
    (cpu.writeIn mode register value).spsrs = cpu.spsrs := by
  cases register <;> rfl

/-- Writing the saved status changes that of the current mode's bank, unless it is the user bank. -/
theorem get_spsrs_withSpsr (value : Word) (bank : Bank) :
    (cpu.withSpsr value).spsrs.get bank =
      if bank = cpu.mode.bank ∧ bank ≠ .user then value else cpu.spsrs.get bank := by
  unfold withSpsr
  by_cases hu : cpu.mode.bank = .user
  · by_cases hb : bank = .user <;> simp [hu, hb]
  · by_cases hb : bank = cpu.mode.bank <;> simp [hu, hb, Banked.get_set]

end Armv4t.Cpu

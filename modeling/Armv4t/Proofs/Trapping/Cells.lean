import Armv4t.Cpu.Lemmas
import Armv4t.Proofs.Trapping.Status

/-!
# The register file on checked indices

A host keeps the state of a processor in arrays of words: the sixteen registers of the current mode,
the stored copies of the banked registers and the status as a word.  `Cells` are any such arrays;
those of a processor are `Cpu.cells`.  Every operation on the register file looks its words up by
checked indices and asks the status word for the mode, which traps if the mode field names none.  On
the cells of a processor it never traps, and it does what the operation does to the processor.
-/

namespace Armv4t

namespace Trapping

/-- The words in which a host keeps the state of a processor. -/
@[ext] structure Cells where
  /-- R0 to R15 of the current mode. -/
  registers : Vector Word 16
  /-- The stored copy of R8 to R12 for every mode but FIQ. -/
  commonHigh : Vector Word 5
  /-- The stored copy of R8 to R12 for FIQ mode. -/
  fiqHigh : Vector Word 5
  /-- The stored copies of stack pointer and link register, by bank. -/
  bankedStacks : Vector (Vector Word 2) 6
  /-- The saved status words, by bank. -/
  spsrs : Vector Word 6
  /-- The status word. -/
  cpsr : Word
deriving DecidableEq, Repr

/-- The place of a mode's bank among the stored copies. -/
def bankIndex : Mode → Nat
  | .user | .system => 0
  | .fiq => 1
  | .irq => 2
  | .supervisor => 3
  | .abort => 4
  | .undefined => 5

/-- The values of all banks in an array. -/
def ofBanked {α : Type} (values : Banked α) : Vector α 6 :=
  #v[values.user, values.fiq, values.irq, values.supervisor, values.abort, values.undefined]

/-- A stack pointer and a link register in an array. -/
def ofPair (pair : StackPair) : Vector Word 2 :=
  #v[pair.sp, pair.lr]

/-- Where the word of a register is kept. -/
inductive Place where
  /-- Among the registers of the current mode. -/
  | view
  /-- In the stored copy of R8 to R12 for FIQ mode. -/
  | fiqHigh (index : Nat)
  /-- In the stored copy of R8 to R12 for every other mode. -/
  | commonHigh (index : Nat)
  /-- In the stored stack pointer and link register of a bank. -/
  | stack (bank index : Nat)
deriving DecidableEq, Repr

/-- Where the word of a register as one mode sees it is kept while another is the current mode. -/
def place (mode current : Mode) (register : Register) : Checked Place := do
  let index := register.index.val
  if 8 ≤ index ∧ index ≤ 12 ∧ ¬(mode = .fiq ↔ current = .fiq) then
    let index ← subIndex index 8
    return if mode = .fiq then .fiqHigh index else .commonHigh index
  else if (index = 13 ∨ index = 14) ∧ bankIndex mode ≠ bankIndex current then
    return .stack (bankIndex mode) (← subIndex index 13)
  else return .view

namespace Cells

/-! ### Status -/

/-- The current mode.  A mode field that names none cannot be answered for. -/
def mode (cells : Cells) : Checked Mode := do
  match ← modeOf? cells.cpsr with
  | some mode => return mode
  | none => throw .unnamedMode

/-- The instruction set in use. -/
def instructionSet (cells : Cells) : Checked InstructionSet :=
  instructionSetOf cells.cpsr

/-- The condition flags. -/
def flags (cells : Cells) : Checked Flags :=
  flagsOf cells.cpsr

/-- The carry flag. -/
def carry (cells : Cells) : Checked Bool :=
  carryOf cells.cpsr

/-- How far the program counter runs ahead of the instruction being executed. -/
def lookahead (cells : Cells) : Checked Word := do
  mul 2 (← cells.instructionSet).size

/-- The address of the instruction being executed, or of the next one between instructions. -/
def fetchAddress (cells : Cells) : Checked Word := do
  return (← lookup cells.registers 15) - (← cells.lookahead)

/-- The saved status of the current mode, if the mode has one. -/
def spsr? (cells : Cells) : Checked (Option Word) := do
  match bankIndex (← cells.mode) with
  | 0 => return none
  | index => return some (← lookup cells.spsrs index)

/-- Replaces the saved status of the current mode; without effect in a mode that has none. -/
def withSpsr (cells : Cells) (value : Word) : Checked Cells := do
  match bankIndex (← cells.mode) with
  | 0 => return cells
  | index => return { cells with spsrs := ← replace cells.spsrs index value }

/-! ### Registers -/

/-- The value of a register of the current mode. -/
def read (cells : Cells) (register : Register) : Checked Word :=
  lookup cells.registers register.index

/-- The value of a register at a point where the program counter reads one word further ahead. -/
def readLate (cells : Cells) (register : Register) : Checked Word := do
  if register = .pc then return (← lookup cells.registers 15) + 4
  cells.read register

/-- The address to which the program counter is set for a value. -/
def aligned (cells : Cells) (value : Word) : Checked Word := do
  match ← cells.instructionSet with
  | .arm => return value &&& ~~~0b11
  | .thumb => return value &&& ~~~0b1

/-- Writes a register of the current mode. -/
def write (cells : Cells) (register : Register) (value : Word) : Checked Cells := do
  if register = .pc then
    return { cells with registers := ← replace cells.registers 15 (← cells.aligned value) }
  return { cells with registers := ← replace cells.registers register.index value }

/-- The value of a register as a given mode sees it. -/
def readIn (cells : Cells) (mode : Mode) (register : Register) : Checked Word := do
  match ← place mode (← cells.mode) register with
  | .view => cells.read register
  | .fiqHigh index => lookup cells.fiqHigh index
  | .commonHigh index => lookup cells.commonHigh index
  | .stack bank index => lookup (← lookup cells.bankedStacks bank) index

/-- Writes a register as a given mode sees it. -/
def writeIn (cells : Cells) (mode : Mode) (register : Register) (value : Word) :
    Checked Cells := do
  match ← place mode (← cells.mode) register with
  | .view => cells.write register value
  | .fiqHigh index => return { cells with fiqHigh := ← replace cells.fiqHigh index value }
  | .commonHigh index => return { cells with commonHigh := ← replace cells.commonHigh index value }
  | .stack bank index =>
    let pair ← replace (← lookup cells.bankedStacks bank) index value
    return { cells with bankedStacks := ← replace cells.bankedStacks bank pair }

/-! ### Changing the mode -/

/-- Stores the view into the copies of a mode's bank. -/
def storeView (cells : Cells) (mode : Mode) : Checked Cells := do
  let high ← copied 5 (← slice cells.registers 8 13)
  let pair ← copied 2 (← slice cells.registers 13 15)
  let bankedStacks ← replace cells.bankedStacks (bankIndex mode) pair
  if mode = .fiq then return { cells with fiqHigh := high, bankedStacks }
  else return { cells with commonHigh := high, bankedStacks }

/-- Loads the view from the copies of a mode's bank. -/
def loadView (cells : Cells) (mode : Mode) : Checked Cells := do
  let high := if mode = .fiq then cells.fiqHigh else cells.commonHigh
  let registers ← copyInto cells.registers 8 13 high.toList
  let pair ← lookup cells.bankedStacks (bankIndex mode)
  return { cells with registers := ← copyInto registers 13 15 pair.toList }

/-- Exchanges the view of a mode for that of another, if they see different banks. -/
def switchBank (cells : Cells) (old new : Mode) : Checked Cells := do
  if bankIndex old = bankIndex new then return cells
  (← cells.storeView old).loadView new

/-- Replaces the status word by one that names a given mode, with the view of that mode. -/
def withStatus (cells : Cells) (word : Word) (new : Mode) : Checked Cells := do
  let old ← cells.mode
  let cells := { cells with cpsr := word }
  if old = new then return cells
  cells.switchBank old new

end Cells

end Trapping

/-- The words that hold the state of a processor. -/
def Cpu.cells (cpu : Cpu) : Trapping.Cells where
  registers := .ofFn fun number => cpu.read (.ofIndex number)
  commonHigh := cpu.commonHigh
  fiqHigh := cpu.fiqHigh
  bankedStacks := Trapping.ofBanked (cpu.bankedStacks.map Trapping.ofPair)
  spsrs := Trapping.ofBanked cpu.spsrs
  cpsr := cpu.cpsr.toWord

namespace Trapping

/-! ### Banks -/

section Banks

variable {α : Type} (values : Banked α)

theorem bankIndex_eq_iff (mode other : Mode) :
    bankIndex mode = bankIndex other ↔ mode.bank = other.bank := by
  cases mode <;> cases other <;> decide

theorem bankIndex_eq_zero_iff (mode : Mode) : bankIndex mode = 0 ↔ mode.bank = .user := by
  cases mode <;> decide

@[simp] theorem lookup_ofBanked (mode : Mode) :
    lookup (ofBanked values) (bankIndex mode) = .ok (values.get mode.bank) := by
  cases mode <;> rfl

@[simp] theorem replace_ofBanked (mode : Mode) (value : α) :
    replace (ofBanked values) (bankIndex mode) value =
      .ok (ofBanked (values.set mode.bank value)) := by
  cases mode <;> rfl

end Banks

/-! ### Places -/

section Places

variable (mode current : Mode)

theorem place_low (position : LowRegister) :
    place mode current (.low position) = .ok .view := by
  have hlt := position.isLt
  have hindex : (Register.low position).index.val = position.val := rfl
  unfold place
  rw [hindex, if_neg (by omega), if_neg (by omega)]
  rfl

theorem place_high (position : Fin 5) :
    place mode current (.high position) = .ok
      (if mode = .fiq ↔ current = .fiq then .view
        else if mode = .fiq then .fiqHigh position else .commonHigh position) := by
  have hlt := position.isLt
  have hindex : (Register.high position).index.val = 8 + position.val := rfl
  have hsub : subIndex (8 + position.val) 8 = .ok position.val := by
    rw [subIndex_of_le (by omega), Nat.add_sub_cancel_left]
  unfold place
  rw [hindex]
  -- a register of the bank in use is in the view, and another one is stored eight places lower
  by_cases hsame : mode = .fiq ↔ current = .fiq
  · rw [if_neg fun h => h.2.2 hsame, if_neg (by omega), if_pos hsame]
    rfl
  · rw [if_pos ⟨by omega, by omega, hsame⟩, hsub, if_neg hsame]
    rfl

theorem place_sp : place mode current .sp = .ok
    (if mode.bank = current.bank then .view else .stack (bankIndex mode) 0) := by
  have hindex : Register.sp.index.val = 13 := rfl
  simp only [← bankIndex_eq_iff]
  unfold place
  rw [hindex]
  by_cases hbank : bankIndex mode = bankIndex current <;> simp [hbank]

theorem place_lr : place mode current .lr = .ok
    (if mode.bank = current.bank then .view else .stack (bankIndex mode) 1) := by
  have hindex : Register.lr.index.val = 14 := rfl
  simp only [← bankIndex_eq_iff]
  unfold place
  rw [hindex]
  by_cases hbank : bankIndex mode = bankIndex current <;> simp [hbank]

theorem place_pc : place mode current .pc = .ok .view := by
  have hindex : Register.pc.index.val = 15 := rfl
  simp [place, hindex]

end Places

/-! ### The cells of a processor -/

/-- The registers of the current mode are an array that has the value of each at its number. -/
theorem eq_registers_cells {cpu : Cpu} {values : Vector Word 16}
    (h : ∀ register : Register, values[register.index] = cpu.read register) :
    values = cpu.cells.registers := by
  refine Vector.ext fun i hi => ?_
  have hi' := h (.ofIndex ⟨i, hi⟩)
  simp only [Register.index_ofIndex] at hi'
  simpa [Cpu.cells] using hi'

namespace Cells

variable (cpu : Cpu)

@[simp] theorem mode_cells : cpu.cells.mode = .ok cpu.mode := by
  simp [mode, Cpu.cells, Cpu.mode]

@[simp] theorem instructionSet_cells : cpu.cells.instructionSet = .ok cpu.instructionSet := by
  simp [instructionSet, Cpu.cells, Cpu.instructionSet]

@[simp] theorem flags_cells : cpu.cells.flags = .ok cpu.cpsr.flags :=
  flagsOf_toWord cpu.cpsr

@[simp] theorem carry_cells : cpu.cells.carry = .ok cpu.cpsr.flags.carry :=
  carryOf_toWord cpu.cpsr

@[simp] theorem getElem_registers_cells (register : Register) :
    cpu.cells.registers[register.index] = cpu.read register := by
  simp [Cpu.cells]

@[simp] theorem getElem_pc_cells : cpu.cells.registers[15] = cpu.pc :=
  getElem_registers_cells cpu .pc

@[simp] theorem read_cells (register : Register) :
    cpu.cells.read register = .ok (cpu.read register) := by
  have hlt : register.index.val < 16 := register.index.isLt
  rw [read, lookup_of_lt hlt]
  exact congrArg Except.ok (getElem_registers_cells cpu register)

@[simp] theorem readLate_cells (register : Register) :
    cpu.cells.readLate register = .ok (cpu.readLate register) := by
  unfold readLate Cpu.readLate
  split_ifs with hpc
  · simp
  · simp

@[simp] theorem lookahead_cells : cpu.cells.lookahead = .ok cpu.instructionSet.lookahead := by
  rw [lookahead, instructionSet_cells, ok_bind]
  cases cpu.instructionSet <;> decide

@[simp] theorem fetchAddress_cells : cpu.cells.fetchAddress = .ok cpu.fetchAddress := by
  simp [fetchAddress, Cpu.fetchAddress]

@[simp] theorem aligned_cells (value : Word) :
    cpu.cells.aligned value = .ok (cpu.instructionSet.align value) := by
  rw [aligned, instructionSet_cells, ok_bind]
  cases cpu.instructionSet <;> rfl

@[simp] theorem spsr?_cells : cpu.cells.spsr? = .ok cpu.spsr? := by
  have hlookup := lookup_ofBanked cpu.spsrs cpu.mode
  have hzero := bankIndex_eq_zero_iff cpu.mode
  rw [spsr?, mode_cells, ok_bind, Cpu.spsr?]
  -- the bank of place zero is that of User mode, which has no saved status
  cases hb : bankIndex cpu.mode with
  | zero => rw [if_pos (hzero.1 hb)]; rfl
  | succ index =>
    rw [if_neg fun hu => absurd (hzero.2 hu) (by omega)]
    rw [hb] at hlookup
    simp [Cpu.cells, hlookup]

@[simp] theorem withSpsr_cells (value : Word) :
    cpu.cells.withSpsr value = .ok (cpu.withSpsr value).cells := by
  have hreplace := replace_ofBanked cpu.spsrs cpu.mode value
  have hzero := bankIndex_eq_zero_iff cpu.mode
  rw [withSpsr, mode_cells, ok_bind, Cpu.withSpsr]
  cases hb : bankIndex cpu.mode with
  | zero => rw [if_pos (hzero.1 hb)]; rfl
  | succ index =>
    rw [if_neg fun hu => absurd (hzero.2 hu) (by omega)]
    rw [hb] at hreplace
    simp only [Cpu.cells, hreplace, ok_bind, pure_eq_ok]
    rfl

/-- A write of a general register replaces its word. -/
theorem cells_write {register : Register} (h : register ≠ .pc) (value : Word) :
    (cpu.write register value).cells =
      { cpu.cells with registers := cpu.cells.registers.set register.index value } := by
  -- among the sixteen words only that of the register is another one
  have hregisters : cpu.cells.registers.set register.index value =
      (cpu.write register value).cells.registers := by
    refine eq_registers_cells fun other => ?_
    rw [Cpu.read_write cpu value h, Fin.getElem_fin, Vector.getElem_set]
    by_cases heq : other = register
    · subst heq
      simp
    · have hne : register.index.val ≠ other.index.val := fun hi =>
        heq (Register.index_injective (Fin.ext hi.symm))
      rw [if_neg hne, if_neg heq]
      exact getElem_registers_cells cpu other
  rw [hregisters]
  cases register <;> rfl

theorem write_general_cells {register : Register} (h : register ≠ .pc) (value : Word) :
    cpu.cells.write register value = .ok (cpu.write register value).cells := by
  have hlt : register.index.val < 16 := register.index.isLt
  simp only [write, if_neg h, replace_of_lt hlt, ok_bind, pure_eq_ok, cells_write cpu h]

/-- Replacing the last register is replacing the program counter. -/
theorem cells_withPc (pc : Word) :
    { cpu with pc := pc }.cells =
      { cpu.cells with registers := cpu.cells.registers.set 15 pc } := by
  -- the program counter is the last of the sixteen words
  have hregisters : cpu.cells.registers.set 15 pc = { cpu with pc := pc }.cells.registers := by
    refine eq_registers_cells fun other => ?_
    rw [Fin.getElem_fin, Vector.getElem_set]
    by_cases heq : other = .pc
    · subst heq
      rfl
    · have hne : 15 ≠ other.index.val := fun hi =>
        heq (Register.index_injective (Fin.ext hi.symm))
      rw [if_neg hne]
      refine (getElem_registers_cells cpu other).trans ?_
      cases other with
      | pc => exact absurd rfl heq
      | _ => rfl
  rw [hregisters]
  rfl

@[simp] theorem withPc_cells (pc : Word) :
    (do return { cpu.cells with registers := ← replace cpu.cells.registers 15 pc } :
      Checked Cells) = .ok { cpu with pc := pc }.cells := by
  have hlt : 15 < 16 := by decide
  rw [replace_of_lt hlt, ok_bind]
  exact congrArg Except.ok (cells_withPc cpu pc).symm

theorem write_pc_cells (value : Word) :
    cpu.cells.write .pc value = .ok (cpu.write .pc value).cells := by
  simp only [write, if_pos, aligned_cells, ok_bind]
  exact withPc_cells cpu _

@[simp] theorem write_cells (register : Register) (value : Word) :
    cpu.cells.write register value = .ok (cpu.write register value).cells := by
  by_cases h : register = .pc
  · subst h
    exact write_pc_cells cpu value
  · exact write_general_cells cpu h value

/-! ### Registers of any mode -/

theorem lookup_stack_cells (mode : Mode) :
    lookup cpu.cells.bankedStacks (bankIndex mode) =
      .ok (ofPair (cpu.bankedStacks.get mode.bank)) := by
  simp only [Cpu.cells, lookup_ofBanked, Banked.get_map]

theorem replace_stack_cells (mode : Mode) (pair : StackPair) :
    replace cpu.cells.bankedStacks (bankIndex mode) (ofPair pair) =
      .ok (ofBanked ((cpu.bankedStacks.set mode.bank pair).map ofPair)) := by
  simp only [Cpu.cells, replace_ofBanked]
  cases mode <;> rfl

@[simp] theorem readIn_cells (mode : Mode) (register : Register) :
    cpu.cells.readIn mode register = .ok (cpu.readIn mode register) := by
  rw [readIn, mode_cells, ok_bind]
  cases register with
  | low position =>
    rw [place_low, ok_bind]
    exact read_cells cpu _
  | high position =>
    rw [place_high, ok_bind, Cpu.readIn, Cpu.highIn]
    -- the view, the registers of FIQ, or those of the other modes
    split_ifs with hsame hfiq
    · exact read_cells cpu _
    · exact lookup_of_lt position.isLt
    · exact lookup_of_lt position.isLt
  | sp =>
    rw [place_sp, ok_bind, Cpu.readIn, Cpu.stackIn]
    -- the view has the pair of its own bank, and the storage those of the others
    split_ifs with hbank
    · exact read_cells cpu _
    · simp only [lookup_stack_cells, ok_bind]
      rfl
  | lr =>
    rw [place_lr, ok_bind, Cpu.readIn, Cpu.stackIn]
    split_ifs with hbank
    · exact read_cells cpu _
    · simp only [lookup_stack_cells, ok_bind]
      rfl
  | pc =>
    rw [place_pc, ok_bind]
    exact read_cells cpu _

@[simp] theorem writeIn_cells (mode : Mode) (register : Register) (value : Word) :
    cpu.cells.writeIn mode register value = .ok (cpu.writeIn mode register value).cells := by
  rw [writeIn, mode_cells, ok_bind]
  cases register with
  | low position =>
    rw [place_low, ok_bind]
    exact write_cells cpu _ value
  | high position =>
    have hlt := position.isLt
    rw [place_high, ok_bind]
    by_cases hsame : mode = .fiq ↔ cpu.mode = .fiq
    · -- both modes see the view: the current mode is FIQ if and only if the given one is
      have hwrite : cpu.writeIn mode (.high position) value = cpu.write (.high position) value := by
        by_cases hfiq : cpu.mode = .fiq <;>
          simp_all [Cpu.writeIn, Cpu.withHighIn, Cpu.highIn, Cpu.write]
      rw [if_pos hsame, hwrite]
      exact write_cells cpu _ value
    -- one mode of the two is FIQ, so that the write goes to the storage of the other kind
    rw [if_neg hsame]
    by_cases hfiq : mode = .fiq
    · have hwrite : cpu.writeIn mode (.high position) value =
          { cpu with fiqHigh := cpu.fiqHigh.set position value } := by
        simp_all [Cpu.writeIn, Cpu.withHighIn, Cpu.highIn]
      rw [if_pos hfiq, hwrite]
      simp only [replace_of_lt hlt, ok_bind, pure_eq_ok]
      rfl
    · have hwrite : cpu.writeIn mode (.high position) value =
          { cpu with commonHigh := cpu.commonHigh.set position value } := by
        simp_all [Cpu.writeIn, Cpu.withHighIn, Cpu.highIn]
      rw [if_neg hfiq, hwrite]
      simp only [replace_of_lt hlt, ok_bind, pure_eq_ok]
      rfl
  | sp =>
    rw [place_sp, ok_bind, Cpu.writeIn, Cpu.withStackIn, Cpu.stackIn]
    -- a pair that is not in view is looked up, changed and put back
    split_ifs with hbank
    · exact write_cells cpu _ value
    · have hpair : replace (ofPair (cpu.bankedStacks.get mode.bank)) 0 value =
          .ok (ofPair { cpu.bankedStacks.get mode.bank with sp := value }) := rfl
      simp only [lookup_stack_cells, hpair, replace_stack_cells, ok_bind]
      rfl
  | lr =>
    rw [place_lr, ok_bind, Cpu.writeIn, Cpu.withStackIn, Cpu.stackIn]
    split_ifs with hbank
    · exact write_cells cpu _ value
    · have hpair : replace (ofPair (cpu.bankedStacks.get mode.bank)) 1 value =
          .ok (ofPair { cpu.bankedStacks.get mode.bank with lr := value }) := rfl
      simp only [lookup_stack_cells, hpair, replace_stack_cells, ok_bind]
      rfl
  | pc =>
    rw [place_pc, ok_bind]
    exact write_cells cpu _ value

/-! ### Changing the mode -/

@[simp] theorem storeView_cells :
    cpu.cells.storeView cpu.mode = .ok cpu.storeView.cells := by
  -- R8 to R12 and the stack pair, as they are copied out of the view
  have hhigh : (slice cpu.cells.registers 8 13 >>= copied 5) = .ok cpu.high := by
    rw [copied_slice (by decide) (by decide)]
    refine congrArg Except.ok (Vector.ext fun i hi => ?_)
    rw [Vector.getElem_ofFn]
    exact getElem_registers_cells cpu (.high ⟨i, hi⟩)
  have hpair : (slice cpu.cells.registers 13 15 >>= copied 2) = .ok (ofPair cpu.stack) := by
    rw [copied_slice (by decide) (by decide)]
    refine congrArg Except.ok (Vector.ext fun i hi => ?_)
    rw [Vector.getElem_ofFn]
    rcases (by omega : i = 0 ∨ i = 1) with rfl | rfl
    · exact getElem_registers_cells cpu .sp
    · exact getElem_registers_cells cpu .lr
  rw [storeView, ← bind_assoc, hhigh]
  rw [ok_bind, ← bind_assoc, hpair, ok_bind, replace_stack_cells, ok_bind]
  -- the view itself stays
  have hregisters : cpu.cells.registers = cpu.storeView.cells.registers := by
    refine eq_registers_cells fun register => ?_
    rw [getElem_registers_cells]
    cases register <;> rfl
  -- the mode tells which storage of R8 to R12 has the copy
  by_cases hfiq : cpu.mode = .fiq
  · rw [if_pos hfiq]
    refine congrArg Except.ok (Cells.ext hregisters ?_ ?_ rfl rfl rfl)
    · simp [Cpu.cells, Cpu.storeView, hfiq]
    · simp [Cpu.cells, Cpu.storeView, hfiq]
  · rw [if_neg hfiq]
    refine congrArg Except.ok (Cells.ext hregisters ?_ ?_ rfl rfl rfl)
    · simp [Cpu.cells, Cpu.storeView, hfiq]
    · simp [Cpu.cells, Cpu.storeView, hfiq]

@[simp] theorem loadView_cells (mode : Mode) :
    cpu.cells.loadView mode = .ok (cpu.loadView mode).cells := by
  rw [loadView, copyInto_toList (by decide) (by decide), ok_bind, lookup_stack_cells, ok_bind,
    copyInto_toList (by decide) (by decide), ok_bind]
  refine congrArg Except.ok (Cells.ext ?_ rfl rfl rfl rfl rfl)
  refine eq_registers_cells fun register => ?_
  -- R8 to R12 come from the first copy, R13 and R14 from the second, the others stay
  have hold := getElem_registers_cells cpu register
  simp only [Fin.getElem_fin, Vector.getElem_ofFn]
  cases register with
  | low position =>
    have hlt := position.isLt
    have hindex : (Register.low position).index.val = position.val := rfl
    rw [dif_neg (by omega), dif_neg (by omega)]
    exact hold
  | high position =>
    have hlt := position.isLt
    have hindex : (Register.high position).index.val = 8 + position.val := rfl
    have hsub : 8 + position.val - 8 = position.val := by omega
    rw [dif_neg (by omega), dif_pos (by omega)]
    simp only [hindex, hsub]
    rfl
  | sp => rfl
  | lr => rfl
  | pc => exact hold

theorem cells_withCpsr (psr : Psr) :
    { cpu with cpsr := psr }.cells = { cpu.cells with cpsr := psr.toWord } := by
  refine Cells.ext (Eq.symm (eq_registers_cells fun register => ?_)) rfl rfl rfl rfl rfl
  rw [getElem_registers_cells]
  cases register <;> rfl

@[simp] theorem withFlagsAfter_cells (result : AluResult) :
    (do return { cpu.cells with cpsr := ← withFlagsAfter cpu.cells.cpsr result } :
      Checked Cells) = .ok (cpu.withFlagsAfter result).cells := by
  have hcpsr : cpu.cells.cpsr = cpu.cpsr.toWord := rfl
  rw [hcpsr, withFlagsAfter_toWord, ok_bind]
  exact congrArg Except.ok (cells_withCpsr cpu _).symm

@[simp] theorem withLongFlags_cells (result : BitVec 64) :
    (do return { cpu.cells with cpsr := ← withLongFlags cpu.cells.cpsr result } :
      Checked Cells) = .ok (cpu.withFlags { cpu.cpsr.flags with
        negative := result.msb
        zero := result == 0
        carry := false }).cells := by
  have hcpsr : cpu.cells.cpsr = cpu.cpsr.toWord := rfl
  rw [hcpsr, withLongFlags_toWord, ok_bind]
  exact congrArg Except.ok (cells_withCpsr cpu _).symm

@[simp] theorem withSetBit_cells (set : InstructionSet) :
    (do return { cpu.cells with cpsr := ← withSetBit cpu.cells.cpsr set } :
      Checked Cells) = .ok (cpu.withInstructionSet set).cells := by
  have hcpsr : cpu.cells.cpsr = cpu.cpsr.toWord := rfl
  rw [hcpsr, withSetBit_toWord, ok_bind]
  exact congrArg Except.ok (cells_withCpsr cpu _).symm

/-- Storing the view does not look at the status word. -/
theorem storeView_withCpsr (cells : Cells) (word : Word) (mode : Mode) :
    { cells with cpsr := word }.storeView mode =
      cells.storeView mode >>= fun stored => return { stored with cpsr := word } := by
  simp only [storeView, bind_assoc]
  refine congrArg _ (funext fun slice => congrArg _ (funext fun high => ?_))
  refine congrArg _ (funext fun slice => congrArg _ (funext fun pair => ?_))
  refine congrArg _ (funext fun bankedStacks => ?_)
  split_ifs <;> rfl

/-- Writing the word of a status does what changing the status does. -/
@[simp] theorem withStatus_cells (psr : Psr) :
    cpu.cells.withStatus psr.toWord psr.mode = .ok (cpu.withPsr psr).cells := by
  simp only [withStatus, switchBank, mode_cells, ok_bind]
  by_cases hbank : cpu.mode.bank = psr.mode.bank
  · -- the view stays, whether or not the mode does
    have hsame : cpu.withPsr psr = { cpu with cpsr := psr } := by
      rw [Cpu.withPsr, Cpu.exchangeView, if_pos hbank]
    rw [hsame, cells_withCpsr, if_pos ((bankIndex_eq_iff _ _).2 hbank)]
    split_ifs <;> rfl
  -- the view goes into the storage of the old bank and comes out of that of the new one
  · have hmode : cpu.mode ≠ psr.mode := fun h => hbank (congrArg Mode.bank h)
    have hother : cpu.withPsr psr = { cpu.storeView with cpsr := psr }.loadView psr.mode := by
      rw [Cpu.withPsr, Cpu.exchangeView, if_neg hbank]
      rfl
    rw [if_neg hmode, if_neg fun h => hbank ((bankIndex_eq_iff _ _).1 h),
      storeView_withCpsr, storeView_cells, ok_bind, pure_eq_ok, ok_bind, ← cells_withCpsr,
      loadView_cells, hother]

end Cells

end Trapping

end Armv4t

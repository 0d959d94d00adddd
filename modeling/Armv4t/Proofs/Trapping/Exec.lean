import Armv4t.Proofs.Trapping.Machine

/-!
# Effects of instructions on a host that traps

The effects that instructions are made of, performed on cells: writing registers, branching,
changing the status, entering exceptions.  Each follows the effect on the processor.
-/

namespace Armv4t.Trapping

open HostM

/-! ### Registers and branches -/

/-- Writes a register without a branch. -/
def writeRegister (register : Register) (value : Word) : HostM Unit := do
  if register = .pc then
    let aligned ← look (·.aligned value)
    if aligned ≠ value then note (.unalignedPc (← look Cells.instructionSet) value)
  update (·.write register value)

/-- Continues at an address in the current instruction set. -/
def branchTo (address : Word) : HostM Flow := do
  let set ← look Cells.instructionSet
  let target ← look (·.aligned address)
  let lookahead ← look Cells.lookahead
  update fun cells => do
    return { cells with registers := ← replace cells.registers 15 (target + lookahead) }
  let _ ← ask (.branch target set)
  charge 2
  return .jump

/-- Continues at an address in the instruction set that its lowest bit selects. -/
def branchExchange (address : Word) : HostM Flow := do
  let set : InstructionSet := if ← check (getBit address 0) then .thumb else .arm
  update fun cells => do return { cells with cpsr := ← withSetBit cells.cpsr set }
  branchTo address

/-- Gives a register a value, which is a branch if the register is the program counter. -/
def writeOrBranch (register : Register) (value : Word) : HostM Flow := do
  if register = .pc then
    branchTo value
  else
    writeRegister register value
    return .next

/-- Sets the flags after a result. -/
def setFlagsAfter (result : AluResult) : HostM Unit :=
  update fun cells => do return { cells with cpsr := ← withFlagsAfter cells.cpsr result }

/-- Sets the flags after a result of 64 bits. -/
def setLongFlags (result : BitVec 64) : HostM Unit :=
  update fun cells => do return { cells with cpsr := ← withLongFlags cells.cpsr result }

/-! ### Multiplications -/

/-- A product plus the addend of an accumulation. -/
def accumulated (product : Word) : Option Word → Word
  | some addend => product + addend
  | none => product

/-- A multiplication with a result of one word. -/
def multiply (destination : Register) (multiplicand multiplier : Word) (addend : Option Word)
    (setFlags : Bool) : HostM Flow := do
  let result := accumulated (multiplicand * multiplier) addend
  let extra : Word := (BitVec.ofBool addend.isSome).setWidth 32
  charge (← check (add (multiplierCycles multiplier true) extra))
  writeRegister destination result
  if setFlags then setFlagsAfter ⟨result, some false, none⟩
  return .next

/-- A product, plus the old value of two registers in an accumulation. -/
def accumulatedLong (product : BitVec 64) (high low : Register) (accumulate : Bool)
    (cells : Cells) : Checked (BitVec 64) := do
  if accumulate then
    return product + (← pair (← cells.read high) (← cells.read low))
  else
    return product

/-- A multiplication with a result of two words, of which the low one is written first. -/
def multiplyLong (high low : Register) (multiplicand multiplier : Word)
    (signed accumulate setFlags : Bool) : HostM Flow := do
  let result ← check (product multiplicand multiplier signed)
  let result ← look (accumulatedLong result high low accumulate)
  let extra : Word := (BitVec.ofBool accumulate).setWidth 32
  charge (← check (add (← check (add (multiplierCycles multiplier signed) 1)) extra))
  writeRegister low (result.setWidth 32)
  writeRegister high ((← check (shr result 32)).setWidth 32)
  if setFlags then setLongFlags result
  return .next

/-! ### Status -/

/-- Replaces the status word; a word that names no mode is a fault. -/
def writeStatus (word : Word) : HostM Unit := do
  match ← check (modeOf? word) with
  | none => fail (.invalidMode ((← check (getBits word 0 4)).setWidth 5))
  | some new =>
    let old ← look Cells.mode
    if old ≠ new then note (.modeSwitch old new)
    update (·.withStatus word new)

/-- Restores the status from the saved one, if the mode has one. -/
def restoreStatus : HostM Unit := do
  match ← look Cells.spsr? with
  | some word => writeStatus word
  | none => note (.nothingToRestore (← look Cells.mode))

/-- Stops with the fault that restoring the status would stop with. -/
def checkRestore : HostM Unit := do
  match ← look Cells.spsr? with
  | some word =>
    match ← check (modeOf? word) with
    | none => fail (.invalidMode ((← check (getBits word 0 4)).setWidth 5))
    | some _ => return ()
  | none => return ()

/-- Enters the handler of an exception. -/
def raise (exception : Exception) : HostM Unit := do
  let address ← look Cells.fetchAddress
  note (.exception exception address)
  let offset := exception.returnOffset (← look Cells.instructionSet)
  let old := (← get).cpsr
  writeStatus (← check (entryWord exception old))
  writeRegister .lr (address + offset)
  update (·.withSpsr old)
  let _ ← branchTo exception.vector

/-- Takes an interrupt unless it is held back, and tells whether it was taken. -/
def requestInterrupt (line : InterruptLine) : HostM Bool := do
  if ← look fun cells => maskOf line cells.cpsr then
    return false
  raise line.exception
  return true

variable {α : Type} {cpu : Cpu}

/-! ### Following the effects -/

/-- Reading a register of the current mode. -/
theorem follows_lookRead (register : Register) {f : Word → HostM α} {y : StepM α}
    (k : Follows cpu.cells cpu (f (cpu.read register)) y) :
    Follows cpu.cells cpu (look (·.read register) >>= f) y :=
  follows_look (Cells.read_cells cpu register) k

/-- Reading a register of the current mode at a point where the program counter is further ahead. -/
theorem follows_lookReadLate (register : Register) {f : Word → HostM α} {y : StepM α}
    (k : Follows cpu.cells cpu (f (cpu.readLate register)) y) :
    Follows cpu.cells cpu (look (·.readLate register) >>= f) y :=
  follows_look (Cells.readLate_cells cpu register) k

theorem follows_writeRegister (register : Register) (value : Word) :
    Follows cpu.cells cpu (writeRegister register value)
      (liftM (CpuM.writeRegister register value)) := by
  have hwrite := Cells.write_cells cpu register value
  unfold writeRegister CpuM.writeRegister
  -- only a write of the program counter looks at the instruction set
  by_cases hpc : register = .pc
  · subst hpc
    simp only [if_true, true_and, liftM_bind]
    refine follows_get (follows_look (Cells.aligned_cells cpu value) ?_)
    by_cases halign : cpu.instructionSet.align value = value
    · simp only [halign, ne_eq, not_true_eq_false, if_false]
      exact follows_update_set hwrite
    · simp only [halign, ne_eq, not_false_eq_true, if_true, liftM_bind]
      refine follows_look (Cells.instructionSet_cells cpu) ?_
      exact follows_note_bind _ (follows_update_set hwrite)
  · simp only [hpc, if_false, false_and, liftM_bind]
    exact follows_get (follows_update_set hwrite)

/-- A general register is written without further ado. -/
theorem follows_writeRegister_modify {register : Register} (h : register ≠ .pc) (value : Word) :
    Follows cpu.cells cpu (writeRegister register value) (modify (·.write register value)) := by
  unfold writeRegister
  simp only [h, if_false]
  exact follows_update_modify (Cells.write_cells cpu register value)

theorem follows_branchTo (address : Word) :
    Follows cpu.cells cpu (branchTo address) (liftM (CpuM.branchTo address)) := by
  unfold branchTo CpuM.branchTo
  simp only [liftM_bind, liftM_pure]
  refine follows_get (follows_look (Cells.instructionSet_cells cpu) ?_)
  refine follows_look (Cells.aligned_cells cpu address) ?_
  refine follows_look (Cells.lookahead_cells cpu) ?_
  refine follows_bind (follows_update_set (Cells.withPc_cells cpu _)) fun _ c => ?_
  refine follows_bind (follows_ask _) fun _ c => ?_
  exact follows_charge_bind rfl (follows_pure _)

theorem follows_branchExchange (address : Word) :
    Follows cpu.cells cpu (branchExchange address) (liftM (CpuM.branchExchange address)) := by
  have hbit : getBit address 0 = .ok (address.getLsbD 0) := getBit_of_lt (by decide)
  unfold branchExchange CpuM.branchExchange
  simp only [liftM_bind]
  refine follows_check hbit ?_
  refine follows_bind (follows_update_modify (Cells.withSetBit_cells cpu _)) fun _ c => ?_
  exact follows_branchTo address

theorem follows_writeOrBranch (register : Register) (value : Word) :
    Follows cpu.cells cpu (writeOrBranch register value)
      (liftM (CpuM.writeOrBranch register value)) := by
  unfold writeOrBranch CpuM.writeOrBranch
  split_ifs with hpc
  · exact follows_branchTo value
  · simp only [liftM_bind, liftM_pure]
    refine follows_bind (follows_writeRegister_modify hpc value) fun _ c => ?_
    exact follows_pure _

theorem follows_setFlagsAfter (result : AluResult) :
    Follows cpu.cells cpu (setFlagsAfter result) (modify (·.withFlagsAfter result)) :=
  follows_update_modify (Cells.withFlagsAfter_cells cpu result)

theorem follows_setLongFlags (result : BitVec 64) :
    Follows cpu.cells cpu (setLongFlags result)
      (modify fun cpu => cpu.withFlags { cpu.cpsr.flags with
        negative := result.msb
        zero := result == 0
        carry := false }) :=
  follows_update_modify (Cells.withLongFlags_cells cpu result)

/-! ### Following multiplications -/

/-- A bit is added to a count of cycles without overflow. -/
theorem add_bit {cycles : Word} {count : Nat} (h : cycles.toNat = count) (h' : count < 8)
    (bit : Bool) :
    ∃ sum, add cycles ((BitVec.ofBool bit).setWidth 32) = .ok sum ∧
      sum.toNat = count + bit.toNat := by
  have hbit : ((BitVec.ofBool bit).setWidth 32 : Word).toNat = bit.toNat := by
    cases bit <;> rfl
  have hle : bit.toNat ≤ 1 := Bool.toNat_le bit
  have hlt : cycles.toNat + ((BitVec.ofBool bit).setWidth 32 : Word).toNat < 2 ^ 32 := by
    rw [h, hbit]
    omega
  refine ⟨_, add_eq_ok hlt, ?_⟩
  rw [BitVec.toNat_add, Nat.mod_eq_of_lt hlt, h, hbit]

theorem follows_multiply (operation : Multiply) :
    Follows cpu.cells cpu
      (multiply operation.destination (cpu.read operation.multiplicand)
        (cpu.read operation.multiplier) (operation.addend.map cpu.read) operation.setFlags)
      (liftM operation.execute) := by
  -- the sum with the addend is the same on both sides
  have hresult : accumulated (cpu.read operation.multiplicand * cpu.read operation.multiplier)
      (operation.addend.map cpu.read) = operation.result cpu := by
    unfold Multiply.result
    cases operation.addend <;> rfl
  have hcycles := toNat_multiplierCycles (cpu.read operation.multiplier) true
  have hfew := cycles_le (cpu.read operation.multiplier) true
  -- few enough cycles that counting them does not overflow
  obtain ⟨sum, hsum, hcount⟩ := add_bit hcycles (by omega) operation.addend.isSome
  unfold multiply Multiply.execute
  simp only [liftM_bind, hresult, Option.isSome_map]
  refine follows_get (follows_check hsum ?_)
  refine follows_charge_bind hcount ?_
  refine follows_bind (follows_writeRegister operation.destination _) fun _ c => ?_
  split_ifs
  · exact follows_bind (follows_setFlagsAfter _) fun _ c => follows_pure _
  · exact follows_pure _

/-- The processor accumulates what the host does. -/
theorem accumulatedLong_cells (operation : LongMultiply) :
    accumulatedLong
        (Multiplier.product (cpu.read operation.multiplicand) (cpu.read operation.multiplier)
          operation.signed)
        operation.destinationHigh operation.destinationLow operation.accumulate cpu.cells =
      .ok (operation.result cpu) := by
  unfold accumulatedLong LongMultiply.result
  split_ifs
  · simp only [Cells.read_cells, ok_bind, pair_eq_ok, pure_eq_ok]
  · rfl

theorem follows_multiplyLong (operation : LongMultiply) :
    Follows cpu.cells cpu
      (multiplyLong operation.destinationHigh operation.destinationLow
        (cpu.read operation.multiplicand) (cpu.read operation.multiplier) operation.signed
        operation.accumulate operation.setFlags)
      (liftM operation.execute) := by
  have hcycles := toNat_multiplierCycles (cpu.read operation.multiplier) operation.signed
  have hfew := cycles_le (cpu.read operation.multiplier) operation.signed
  -- at most four cycles of the multiplier, one for the second word, one for the accumulation
  have hone : ((BitVec.ofBool true).setWidth 32 : Word) = 1 := rfl
  obtain ⟨next, hnext, hcount⟩ := add_bit hcycles (by omega) true
  rw [Bool.toNat_true] at hcount
  rw [hone] at hnext
  obtain ⟨sum, hsum, htotal⟩ := add_bit hcount (by omega) operation.accumulate
  have hlow : (operation.result cpu).setWidth 32 = (operation.result cpu).extractLsb' 0 32 :=
    BitVec.setWidth_eq_extractLsb' (by decide)
  have hhigh : (operation.result cpu >>> 32).setWidth 32 =
      (operation.result cpu).extractLsb' 32 32 := by
    refine BitVec.eq_of_getLsbD_eq fun i hi => ?_
    simp [hi]
  have hshift : shr (operation.result cpu) 32 = .ok (operation.result cpu >>> 32) :=
    shr_of_lt (by decide)
  unfold multiplyLong LongMultiply.execute
  simp only [liftM_bind]
  refine follows_get (follows_check (product_eq_ok _ _ _) ?_)
  refine follows_look (accumulatedLong_cells operation) ?_
  refine follows_check hnext (follows_check hsum (follows_charge_bind htotal ?_))
  rw [hlow]
  refine follows_bind (follows_writeRegister operation.destinationLow _) fun _ c => ?_
  refine follows_check hshift ?_
  rw [hhigh]
  refine follows_bind (follows_writeRegister operation.destinationHigh _) fun _ c => ?_
  split_ifs
  · exact follows_bind (follows_setLongFlags _) fun _ c => follows_pure _
  · exact follows_pure _

/-! ### Following the changes of status -/

/-- The mode field of a word, as the fault reports it that finds no mode in it. -/
theorem getBits_modeField (word : Word) :
    getBits word 0 4 = .ok ((Psr.modeField word).setWidth 32) :=
  getBits_eq_ok (by decide) (by decide) (by decide)

theorem setWidth_modeField (word : Word) :
    ((Psr.modeField word).setWidth 32).setWidth 5 = Psr.modeField word := by
  generalize Psr.modeField word = field
  revert field
  decide

/-- What becomes of a status word depends on whether its mode field names a mode. -/
theorem ofWord?_eq (word : Word) :
    Psr.ofWord? word = (Mode.ofBits? (Psr.modeField word)).map (Psr.ofWordWithMode word) := rfl

theorem follows_writeStatus (word : Word) :
    Follows cpu.cells cpu (writeStatus word) (StepM.installPsrWord word) := by
  have hpsr := ofWord?_eq word
  unfold writeStatus StepM.installPsrWord
  refine follows_check (modeOf?_eq_ok word) ?_
  -- the host looks for the mode before it touches the status
  cases hmode : Mode.ofBits? (Psr.modeField word) with
  | none =>
    rw [hmode, Option.map_none] at hpsr
    simp only [hpsr]
    refine follows_check (getBits_modeField word) ?_
    rw [setWidth_modeField]
    exact follows_fail _
  | some mode =>
    rw [hmode, Option.map_some] at hpsr
    have hstatus : cpu.cells.withStatus word mode =
        .ok (cpu.withPsr (Psr.ofWordWithMode word mode)).cells := by
      have hcells := Cells.withStatus_cells cpu (Psr.ofWordWithMode word mode)
      rwa [Psr.toWord_of_ofWord? hpsr] at hcells
    have hkept : (Psr.ofWordWithMode word mode).mode = mode := rfl
    simp only [hpsr, CpuM.installPsr, liftM_bind, hkept]
    refine follows_look (Cells.mode_cells cpu) (follows_get ?_)
    -- the switch is noted exactly when the mode is another one
    by_cases hsame : cpu.mode = mode
    · simp only [hsame, ne_eq, not_true_eq_false, if_false]
      exact follows_update_set hstatus
    · simp only [hsame, ne_eq, not_false_eq_true, if_true, liftM_bind]
      exact follows_note_bind _ (follows_update_set hstatus)

theorem follows_restoreStatus :
    Follows cpu.cells cpu restoreStatus StepM.restorePsr := by
  unfold restoreStatus StepM.restorePsr
  refine follows_look (Cells.spsr?_cells cpu) (follows_get ?_)
  cases cpu.spsr? with
  | some word => exact follows_writeStatus word
  | none =>
    refine follows_look (Cells.mode_cells cpu) ?_
    exact .note rfl (.pure ⟨rfl, rfl⟩)

/-- A check for a restore leaves the processor as it is. -/
theorem follows_checkRestore_bind {x : HostM α} {y : StepM α} (k : Follows cpu.cells cpu x y) :
    Follows cpu.cells cpu
      (do
        checkRestore
        x)
      (do
        StepM.checkRestore
        y) := by
  unfold checkRestore StepM.checkRestore
  simp only [bind_assoc]
  refine follows_look (Cells.spsr?_cells cpu) (follows_get ?_)
  -- without a saved status there is nothing to check
  cases cpu.spsr? with
  | none => exact k
  | some word =>
    have hpsr := ofWord?_eq word
    simp only [bind_assoc]
    refine follows_check (modeOf?_eq_ok word) ?_
    cases hmode : Mode.ofBits? (Psr.modeField word) with
    | none =>
      simp only [hpsr, hmode, Option.map_none, Option.isNone_none, if_true, bind_assoc]
      refine follows_check (getBits_modeField word) ?_
      rw [setWidth_modeField]
      exact follows_fail _
    | some mode =>
      simp only [hpsr, hmode, Option.map_some, Option.isNone_some, Bool.false_eq_true, if_false]
      exact k

/-! ### Following exceptions -/

/-- Installing a status is writing its word, which names a mode. -/
theorem installPsrWord_toWord (psr : Psr) :
    StepM.installPsrWord psr.toWord = liftM (CpuM.installPsr psr) := by
  rw [StepM.installPsrWord, Psr.ofWord?_toWord]

/-- The host writes the return address and the saved status one after the other, the processor both
at once. -/
theorem follows_keepReturn {register : Register} (h : register ≠ .pc) (address saved : Word)
    {x : HostM α} {y : StepM α} (k : ∀ c : Cpu, Follows c.cells c x y) :
    Follows cpu.cells cpu
      (do
        writeRegister register address
        update (·.withSpsr saved)
        x)
      (do
        liftM (modify fun entered => (entered.write register address).withSpsr saved : CpuM Unit)
        y) := by
  -- neither write asks for the program counter, and so neither looks at the instruction set
  have hwrite := Cells.write_cells cpu register address
  have hsave := Cells.withSpsr_cells (cpu.write register address) saved
  simp only [writeRegister, if_neg h]
  refine follows_update hwrite (follows_update hsave ?_)
  exact follows_modify (k _)

theorem follows_raise (exception : Exception) :
    Follows cpu.cells cpu (raise exception) (liftM (CpuM.raise exception)) := by
  unfold raise CpuM.raise
  simp only [liftM_bind]
  refine follows_look (Cells.fetchAddress_cells cpu) (follows_get ?_)
  refine follows_note_bind _ ?_
  refine follows_look (Cells.instructionSet_cells cpu) (follows_cells ?_)
  refine follows_check (entryWord_toWord cpu.cpsr exception) ?_
  rw [← installPsrWord_toWord]
  refine follows_bind (follows_writeStatus _) fun _ c => ?_
  refine follows_keepReturn Register.lr_ne_pc _ _ fun c => ?_
  exact follows_bind (follows_branchTo _) fun _ c => follows_pure ()

theorem follows_requestInterrupt (line : InterruptLine) :
    Follows cpu.cells cpu (requestInterrupt line) (liftM (CpuM.requestInterrupt line)) := by
  unfold requestInterrupt CpuM.requestInterrupt
  simp only [liftM_bind]
  refine follows_look (maskOf_toWord cpu.cpsr line) (follows_get ?_)
  split_ifs with hmasked
  · exact follows_pure false
  · simp only [liftM_bind, liftM_pure]
    exact follows_bind (follows_raise line.exception) fun _ c => follows_pure true

end Armv4t.Trapping

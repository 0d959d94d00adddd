import Armv4t.Cpu.Lemmas
import Armv4t.Proofs.Opcode
import Armv4t.Proofs.Simulation

/-!
# Instructions on related processors

An instruction sees the processor through a few lookups and changes it through a few updates.  A
relation between processors that the lookups cannot see and the updates keep is therefore kept by
every instruction, with the same results, faults, requests and log records on both sides.

`Cpu.ViewRelation` asks this of the registers and flags of the current mode, which is all that a
transfer, a multiplication or a data-processing instruction uses unless it writes the program
counter; `Cpu.BankRelation` adds the program counter, the saved status and the registers of User
mode; `Cpu.StatusRelation` adds the changes that a status write makes; `Cpu.ModeRelation` adds every
change of status, which exceptions need.  The main statement is `Opcode.related_execute`: an opcode
keeps a relation that status writes keep, unless it raises a software interrupt.  A relation that
every change of status keeps is kept by every step (`ProgramStep.related_perform`) and by exceptions
(`CpuM.related_raise`).
-/

namespace Armv4t

namespace Cpu

/-- A relation between processors that show the same registers and flags, kept by writing a general
register and by setting the flags. -/
structure ViewRelation (rel : Cpu → Cpu → Prop) : Prop where
  read {c d : Cpu} (h : rel c d) (register : Register) : c.read register = d.read register
  flags {c d : Cpu} (h : rel c d) : c.cpsr.flags = d.cpsr.flags
  write {c d : Cpu} (h : rel c d) {register : Register} (hr : register ≠ .pc) (value : Word) :
    rel (c.write register value) (d.write register value)
  withFlags {c d : Cpu} (h : rel c d) (flags : Flags) : rel (c.withFlags flags) (d.withFlags flags)

/-- A relation between processors in the same status that agree on the saved status and on the
registers of User mode too, kept by branches, by writes to either and by restoring the saved
status. -/
structure BankRelation (rel : Cpu → Cpu → Prop) : Prop extends ViewRelation rel where
  cpsr {c d : Cpu} (h : rel c d) : c.cpsr = d.cpsr
  spsr? {c d : Cpu} (h : rel c d) : c.spsr? = d.spsr?
  readUser {c d : Cpu} (h : rel c d) (register : Register) :
    c.readIn .user register = d.readIn .user register
  withPc {c d : Cpu} (h : rel c d) (pc : Word) : rel { c with pc := pc } { d with pc := pc }
  withInstructionSet {c d : Cpu} (h : rel c d) (set : InstructionSet) :
    rel (c.withInstructionSet set) (d.withInstructionSet set)
  withSpsr {c d : Cpu} (h : rel c d) (value : Word) : rel (c.withSpsr value) (d.withSpsr value)
  writeUser {c d : Cpu} (h : rel c d) {register : Register} (hr : register ≠ .pc) (value : Word) :
    rel (c.writeIn .user register value) (d.writeIn .user register value)
  withSaved {c d : Cpu} (h : rel c d) {word : Word} (hw : c.spsr? = some word) {psr : Psr}
    (hp : Psr.ofWord? word = some psr) : rel (c.withPsr psr) (d.withPsr psr)

/-- A relation of this kind that is kept when a status write changes the current status. -/
structure StatusRelation (rel : Cpu → Cpu → Prop) : Prop extends BankRelation rel where
  withMerged {c d : Cpu} (h : rel c d) (write : StatusWrite) (value : Word) {psr : Psr}
    (hp : Psr.ofWord? (StatusWrite.merge (write.currentMask c.mode) value c.cpsr.toWord) =
      some psr) : rel (c.withPsr psr) (d.withPsr psr)

/-- A relation of this kind that every change of status keeps. -/
structure ModeRelation (rel : Cpu → Cpu → Prop) : Prop extends BankRelation rel where
  withPsr {c d : Cpu} (h : rel c d) (psr : Psr) : rel (c.withPsr psr) (d.withPsr psr)

variable {rel : Cpu → Cpu → Prop} {c d : Cpu}

theorem ModeRelation.toStatusRelation (M : ModeRelation rel) : StatusRelation rel where
  toBankRelation := M.toBankRelation
  withMerged h _ _ psr _ := M.withPsr h psr

theorem ViewRelation.pc (V : ViewRelation rel) (h : rel c d) : c.pc = d.pc :=
  V.read h .pc

theorem ViewRelation.readLate (V : ViewRelation rel) (h : rel c d) (register : Register) :
    c.readLate register = d.readLate register := by
  unfold Cpu.readLate
  rw [V.pc h, V.read h]

theorem ViewRelation.withFlagsAfter (V : ViewRelation rel) (h : rel c d) (result : AluResult) :
    rel (c.withFlagsAfter result) (d.withFlagsAfter result) := by
  unfold Cpu.withFlagsAfter
  rw [V.flags h]
  exact V.withFlags h _

theorem BankRelation.mode (B : BankRelation rel) (h : rel c d) : c.mode = d.mode :=
  congrArg Psr.mode (B.cpsr h)

theorem BankRelation.instructionSet (B : BankRelation rel) (h : rel c d) :
    c.instructionSet = d.instructionSet :=
  congrArg Psr.instructionSet (B.cpsr h)

theorem BankRelation.fetchAddress (B : BankRelation rel) (h : rel c d) :
    c.fetchAddress = d.fetchAddress := by
  unfold Cpu.fetchAddress
  rw [B.pc h, B.instructionSet h]

end Cpu

open Cpu

variable {rel : Cpu → Cpu → Prop} {c d : Cpu}

/-! ### Effects -/

namespace CpuM

/-- Installing a status keeps a relation that holds of the processors with that status. -/
theorem related_installPsr (B : BankRelation rel) (h : rel c d) {psr : Psr}
    (hp : rel (c.withPsr psr) (d.withPsr psr)) :
    Related rel c d (installPsr psr) (installPsr psr) := by
  unfold installPsr
  refine related_get_bind ?_
  dsimp only
  rw [B.mode h]
  split_ifs
  · exact related_bind (related_note h _) fun _ _ _ _ => related_set hp
  · exact related_set hp

/-- A plain register write keeps a relation; for the program counter that takes agreement on the
instruction set. -/
theorem related_writeRegister (V : ViewRelation rel) {register : Register}
    (hpc : register = .pc → BankRelation rel) (h : rel c d) (value : Word) :
    Related rel c d (writeRegister register value) (writeRegister register value) := by
  unfold writeRegister
  refine related_get_bind ?_
  dsimp only
  -- only the program counter is aligned, to an instruction set that both sides must share
  by_cases hr : register = .pc
  · have B := hpc hr
    have hw : rel (c.write register value) (d.write register value) := by
      subst hr
      simp only [Cpu.write, B.instructionSet h]
      exact B.withPc h _
    rw [B.instructionSet h]
    split_ifs
    · exact related_bind (related_note h _) fun _ _ _ _ => related_set hw
    · exact related_set hw
  · rw [if_neg fun both => hr both.1, if_neg fun both => hr both.1]
    exact related_set (V.write h hr value)

theorem related_branchTo (B : BankRelation rel) (h : rel c d) (address : Word) :
    Related rel c d (branchTo address) (branchTo address) := by
  unfold branchTo
  refine related_get_bind ?_
  dsimp only
  rw [B.instructionSet h]
  refine related_bind (related_set (B.withPc h _)) fun _ _ _ h => ?_
  refine related_bind (related_ask h _) fun _ _ _ h => ?_
  exact related_bind (related_charge h 2) fun _ _ _ h => related_pure h _

theorem related_branchExchange (B : BankRelation rel) (h : rel c d) (address : Word) :
    Related rel c d (branchExchange address) (branchExchange address) :=
  related_bind (related_modify (B.withInstructionSet h _)) fun _ _ _ h =>
    related_branchTo B h address

theorem related_writeOrBranch (V : ViewRelation rel) {register : Register}
    (hpc : register = .pc → BankRelation rel) (h : rel c d) (value : Word) :
    Related rel c d (writeOrBranch register value) (writeOrBranch register value) := by
  unfold writeOrBranch
  split_ifs with hr
  · exact related_branchTo (hpc hr) h value
  · exact related_bind (related_modify (V.write h hr value)) fun _ _ _ h => related_pure h _

/-- Entering an exception keeps a relation that every change of status keeps. -/
theorem related_raise (M : ModeRelation rel) (h : rel c d) (exception : Exception) :
    Related rel c d (raise exception) (raise exception) := by
  unfold raise
  refine related_get_bind ?_
  dsimp only
  -- the return address is taken before the change of status and written after it
  rw [M.fetchAddress h, M.instructionSet h, M.cpsr h]
  refine related_bind (related_note h _) fun _ _ _ h => ?_
  refine related_bind (related_installPsr M.toBankRelation h (M.withPsr h _)) fun _ _ _ h => ?_
  refine related_bind (related_modify (M.withSpsr (M.write h (by decide) _) _)) fun _ _ _ h => ?_
  exact related_bind (related_branchTo M.toBankRelation h _) fun _ _ _ h => related_pure h ()

theorem related_requestInterrupt (M : ModeRelation rel) (h : rel c d) (line : InterruptLine) :
    Related rel c d (requestInterrupt line) (requestInterrupt line) := by
  unfold requestInterrupt
  refine related_get_bind ?_
  rw [M.cpsr h]
  split_ifs
  · exact related_pure h false
  · exact related_bind (related_raise M h _) fun _ _ _ h => related_pure h true

end CpuM

namespace StepM

theorem related_installPsrWord (B : BankRelation rel) (h : rel c d) {word : Word}
    (hp : ∀ psr, Psr.ofWord? word = some psr → rel (c.withPsr psr) (d.withPsr psr)) :
    Related rel c d (installPsrWord word) (installPsrWord word) := by
  unfold installPsrWord
  cases hw : Psr.ofWord? word with
  | some psr => exact related_lift (CpuM.related_installPsr B h (hp psr hw))
  | none => exact related_throw h _

theorem related_restorePsr (B : BankRelation rel) (h : rel c d) :
    Related rel c d restorePsr restorePsr := by
  unfold restorePsr
  refine related_get_bind ?_
  rw [← B.spsr? h, B.mode h]
  cases hw : c.spsr? with
  | none => exact related_lift (CpuM.related_note h _)
  | some word => exact related_installPsrWord B h fun _ hp => B.withSaved h hw hp

theorem related_checkRestore (B : BankRelation rel) (h : rel c d) :
    Related rel c d checkRestore checkRestore := by
  unfold checkRestore
  refine related_get_bind ?_
  rw [B.spsr? h]
  cases d.spsr? with
  | none => exact related_pure h ()
  | some word =>
    dsimp only
    split_ifs
    · exact related_throw h _
    · exact related_pure h ()

end StepM

/-! ### Data processing and multiplication -/

open StepM

theorem ShifterOperand.shifted_eq (V : ViewRelation rel) (h : rel c d) (operand : ShifterOperand) :
    operand.shifted c = operand.shifted d := by
  cases operand <;> simp only [ShifterOperand.shifted, V.read h, V.readLate h, V.flags h]

theorem DataProcessing.result_eq (V : ViewRelation rel) (h : rel c d)
    (instruction : DataProcessing) : instruction.result c = instruction.result d := by
  unfold DataProcessing.result ShifterOperand.readBeside
  rw [ShifterOperand.shifted_eq V h, V.flags h, V.readLate h, V.read h]

theorem DataProcessing.related_execute (V : ViewRelation rel) {instruction : DataProcessing}
    (hpc : instruction.destination = .pc → BankRelation rel) (h : rel c d) :
    StepM.Related rel c d instruction.execute instruction.execute := by
  unfold DataProcessing.execute
  dsimp only
  refine related_when (fun _ => related_lift (CpuM.related_charge h 1)) h fun h => ?_
  refine related_get_bind ?_
  rw [result_eq V h]
  -- a test, a write of the program counter, a write of another register
  refine related_ite (fun _ => ?_) fun _ => related_ite (fun hd => ?_) fun hd => ?_
  · exact related_bind (related_modify (V.withFlagsAfter h _)) fun _ _ _ h => related_pure h _
  · have B := hpc hd
    refine related_when (fun _ => related_restorePsr B h) h fun h => ?_
    exact related_lift (CpuM.related_branchTo B h _)
  · refine related_bind (related_modify (V.write h hd _)) fun _ _ _ h => ?_
    exact related_when (fun _ => related_modify (V.withFlagsAfter h _)) h fun h =>
      related_pure h _

theorem Multiply.result_eq (V : ViewRelation rel) (h : rel c d) (operation : Multiply) :
    operation.result c = operation.result d := by
  unfold Multiply.result
  cases operation.addend <;> simp only [V.read h]

theorem Multiply.related_execute (V : ViewRelation rel) {operation : Multiply}
    (hpc : operation.destination = .pc → BankRelation rel) (h : rel c d) :
    CpuM.Related rel c d operation.execute operation.execute := by
  unfold Multiply.execute
  refine CpuM.related_get_bind ?_
  dsimp only
  rw [result_eq V h, show operation.cycles c = operation.cycles d by
    unfold Multiply.cycles; rw [V.read h]]
  refine CpuM.related_bind (CpuM.related_charge h _) fun _ _ _ h => ?_
  refine CpuM.related_bind (CpuM.related_writeRegister V hpc h _) fun _ _ _ h => ?_
  split_ifs
  · exact CpuM.related_bind (CpuM.related_modify (V.withFlagsAfter h _)) fun _ _ _ h =>
      CpuM.related_pure h _
  · exact CpuM.related_pure h _

theorem LongMultiply.related_execute (B : BankRelation rel) (operation : LongMultiply)
    (h : rel c d) : CpuM.Related rel c d operation.execute operation.execute := by
  -- both processors compute the same product in the same time, by the registers they share
  have hresult : operation.result c = operation.result d := by
    unfold LongMultiply.result
    simp only [B.read h]
  have hcycles : operation.cycles c = operation.cycles d := by
    unfold LongMultiply.cycles
    rw [B.read h]
  unfold LongMultiply.execute
  refine CpuM.related_get_bind ?_
  dsimp only
  rw [hresult, hcycles]
  refine CpuM.related_bind (CpuM.related_charge h _) fun _ _ _ h => ?_
  refine CpuM.related_bind (CpuM.related_writeRegister B.1 (fun _ => B) h _) fun _ _ _ h => ?_
  refine CpuM.related_bind (CpuM.related_writeRegister B.1 (fun _ => B) h _) fun _ _ _ h => ?_
  split_ifs
  · refine CpuM.related_bind (CpuM.related_modify ?_) fun _ _ _ h => CpuM.related_pure h _
    rw [B.flags h]
    exact B.withFlags h _
  · exact CpuM.related_pure h _

/-! ### Transfers -/

theorem LoadFormat.related_load (h : rel c d) (format : LoadFormat) (address : Word) :
    StepM.Related rel c d (format.load address) (format.load address) := by
  unfold LoadFormat.load
  cases format with
  | signedHalfword =>
    refine related_ite (fun _ => ?_) fun _ => ?_
    all_goals exact related_bind (related_read h _ _) fun _ _ _ h => related_pure h _
  | _ => exact related_bind (related_read h _ _) fun _ _ _ h => related_pure h _

theorem Offset.value_eq (V : ViewRelation rel) (h : rel c d) (offset : Offset) :
    offset.value c = offset.value d := by
  cases offset <;> simp only [Offset.value, V.read h, V.flags h]

/-- A transfer that is not refused writes back to no program counter, so that only loading it takes
more than a relation of views. -/
theorem SingleTransfer.related_executeAt (V : ViewRelation rel) {transfer : SingleTransfer}
    (hr : transfer.refusal? = none) (hpc : transfer.data = .pc → BankRelation rel) (h : rel c d)
    (base offset : Word) :
    StepM.Related rel c d (transfer.executeAt base offset) (transfer.executeAt base offset) := by
  -- with the program counter as its base, a write-back would have been refused
  have hback : transfer.indexing.writesBack = true → transfer.base ≠ .pc := by
    intro hw hb
    simp [refusal?, hw, hb] at hr
  unfold SingleTransfer.executeAt
  dsimp only
  cases transfer.access with
  | load format =>
    refine related_bind (LoadFormat.related_load h format _) fun value _ _ h => ?_
    refine related_bind (related_lift (CpuM.related_charge h 1)) fun _ _ _ h => ?_
    refine related_when (fun hw => related_modify (V.write h (hback hw.1) _)) h fun h => ?_
    refine related_ite (fun hd => ?_) fun _ => ?_
    · exact related_lift (CpuM.related_branchExchange (hpc hd.1) h value)
    · exact related_lift (CpuM.related_writeOrBranch V hpc h value)
  | store width =>
    refine related_get_bind ?_
    -- a stored program counter lies further ahead on both processors
    rw [V.readLate h]
    refine related_bind (related_write h _ _ _) fun _ _ _ h => ?_
    exact related_when (fun hw => related_modify (V.write h (hback hw) _)) h fun h =>
      related_pure h _

theorem SingleTransfer.related_execute (V : ViewRelation rel) {transfer : SingleTransfer}
    (hr : transfer.refusal? = none) (hpc : transfer.data = .pc → BankRelation rel) (h : rel c d) :
    StepM.Related rel c d transfer.execute transfer.execute := by
  refine related_get_bind ?_
  rw [V.read h, Offset.value_eq V h]
  exact related_executeAt V hr hpc h _ _

namespace BlockTransfer

theorem related_storeWords (h : rel c d) (value : Register → Word) (registers : List Register)
    (address : Word) :
    StepM.Related rel c d (storeWords value registers address)
      (storeWords value registers address) := by
  induction registers generalizing c d address with
  | nil => exact related_pure h ()
  | cons register rest ih =>
    exact related_bind (related_write h _ _ _) fun _ _ _ h => ih h _

theorem ne_pc_of_mem_generalRegisters {transfer : BlockTransfer} {register : Register}
    (hr : register ∈ transfer.generalRegisters) : register ≠ .pc := by
  have hg := (List.mem_filter.1 hr).1
  simpa using (List.mem_filter.1 hg).2

theorem writeBack_ne_pc {transfer : BlockTransfer} (hr : transfer.refusal? = none)
    (hw : transfer.writeBack = true) : transfer.base ≠ .pc := by
  intro hb
  unfold refusal? at hr
  split_ifs at hr with h0 h1
  exact h1 ⟨hw, hb⟩

variable {transfer : BlockTransfer}

/-- Storing to User mode's registers apart, the stored values are read from the view. -/
theorem storedValue_eq (V : ViewRelation rel)
    (hB : transfer.mark = true ∨ transfer.loadsPc = true → BankRelation rel) (h : rel c d) :
    transfer.storedValue c = transfer.storedValue d := by
  funext register
  unfold storedValue
  rw [V.read h, V.readLate h]
  by_cases hm : transfer.mark = true
  · rw [(hB (.inl hm)).readUser h]
  · simp [isUserBank, hm]

theorem writeLoaded_rel (V : ViewRelation rel)
    (hB : transfer.mark = true ∨ transfer.loadsPc = true → BankRelation rel) (h : rel c d)
    {register : Register} (hr : register ≠ .pc) (value : Word) :
    rel (transfer.writeLoaded register value c) (transfer.writeLoaded register value d) := by
  unfold writeLoaded
  split_ifs with hu
  · have hm : transfer.mark = true := by
      unfold isUserBank at hu
      exact (Bool.and_eq_true_iff.1 hu).1
    exact (hB (.inl hm)).writeUser h hr value
  · exact V.write h hr value

theorem related_loadWords (V : ViewRelation rel)
    (hB : transfer.mark = true ∨ transfer.loadsPc = true → BankRelation rel)
    {registers : List Register} (hr : ∀ register ∈ registers, register ≠ .pc) (h : rel c d)
    (address : Word) :
    StepM.Related rel c d (loadWords transfer.writeLoaded registers address)
      (loadWords transfer.writeLoaded registers address) := by
  induction registers generalizing c d address with
  | nil => exact related_pure h ()
  | cons register rest ih =>
    have hw := hr register List.mem_cons_self
    refine related_bind (related_read h _ _) fun value _ _ h => ?_
    refine related_bind (related_modify (writeLoaded_rel V hB h hw value)) fun _ _ _ h => ?_
    exact ih (fun r hm => hr r (List.mem_cons_of_mem _ hm)) h _

theorem writeBackLoaded_rel (V : ViewRelation rel) (hr : transfer.refusal? = none) (h : rel c d)
    (base : Word) : rel (transfer.writeBackLoaded base c) (transfer.writeBackLoaded base d) := by
  unfold writeBackLoaded
  split_ifs with hw
  · exact V.write h (writeBack_ne_pc hr hw.1) _
  · exact h

theorem related_executeLoad (V : ViewRelation rel) (hr : transfer.refusal? = none)
    (hB : transfer.mark = true ∨ transfer.lists .pc = true → BankRelation rel) (h : rel c d)
    (base : Word) :
    StepM.Related rel c d (transfer.executeLoad base) (transfer.executeLoad base) := by
  have hB' : transfer.mark = true ∨ transfer.loadsPc = true → BankRelation rel := by
    rintro (hm | hp)
    · exact hB (.inl hm)
    · exact hB (.inr (Bool.and_eq_true_iff.1 hp).2)
  unfold executeLoad
  dsimp only
  refine related_when (fun hm => related_checkRestore (hB (.inl hm.1)) h) h fun h => ?_
  refine related_bind (related_loadWords V hB' (fun _ => ne_pc_of_mem_generalRegisters) h _)
    fun _ _ _ h => ?_
  refine related_ite (fun hp => ?_) fun _ => ?_
  -- the program counter is loaded last, after which a marked transfer restores the status
  · have B := hB (.inr hp)
    refine related_bind (related_read h _ _) fun target _ _ h => ?_
    refine related_bind (related_lift (CpuM.related_charge h 1)) fun _ _ _ h => ?_
    refine related_bind (related_modify (writeBackLoaded_rel V hr h base)) fun _ _ _ h => ?_
    refine related_when (fun _ => related_restorePsr B h) h fun h => ?_
    exact related_lift (CpuM.related_branchTo B h target)
  · refine related_bind (related_lift (CpuM.related_charge h 1)) fun _ _ _ h => ?_
    exact related_bind (related_modify (writeBackLoaded_rel V hr h base)) fun _ _ _ h =>
      related_pure h _

theorem related_executeStore (V : ViewRelation rel) (hr : transfer.refusal? = none)
    (hB : transfer.mark = true ∨ transfer.loadsPc = true → BankRelation rel) (h : rel c d)
    (base : Word) :
    StepM.Related rel c d (transfer.executeStore base) (transfer.executeStore base) := by
  unfold executeStore
  refine related_get_bind ?_
  rw [storedValue_eq V hB h]
  refine related_bind (related_storeWords h _ _ _) fun _ _ _ h => ?_
  exact related_when (fun hw => related_modify (V.write h (writeBack_ne_pc hr hw) _)) h fun h =>
    related_pure h _

/-- A block transfer without the mark that loads no program counter uses the view alone. -/
theorem related_execute (V : ViewRelation rel) (hr : transfer.refusal? = none)
    (hB : transfer.mark = true ∨ transfer.loadsPc = true → BankRelation rel) (h : rel c d) :
    StepM.Related rel c d transfer.execute transfer.execute := by
  refine related_get_bind ?_
  rw [V.read h]
  refine related_ite (fun hl => ?_) fun _ => related_executeStore V hr hB h _
  refine related_executeLoad V hr (fun hm => hB ?_) h _
  unfold loadsPc
  simpa [hl] using hm

end BlockTransfer

theorem Swap.related_execute (B : BankRelation rel) (swap : Swap) (h : rel c d) :
    StepM.Related rel c d swap.execute swap.execute := by
  refine related_get_bind ?_
  rw [B.read h, B.read h]
  refine related_bind ?_ fun old _ _ h => ?_
  · unfold Swap.exchange
    refine related_ite (fun _ => ?_) fun _ => ?_
    all_goals
      refine related_bind (related_read h _ _) fun old _ _ h => ?_
      exact related_bind (related_write h _ _ _) fun _ _ _ h => related_pure h _
  · refine related_bind (related_lift (CpuM.related_charge h 1)) fun _ _ _ h => ?_
    exact related_lift (CpuM.related_writeOrBranch B.1 (fun _ => B) h old)

/-! ### Status transfers -/

theorem related_readStatus (B : BankRelation rel) (saved : Bool) (destination : Register)
    (h : rel c d) :
    CpuM.Related rel c d (readStatus saved destination) (readStatus saved destination) := by
  -- the word is the same by now, whichever status it is
  have hw : ∀ {c d} value, rel c d → CpuM.Related rel c d
      (do CpuM.writeRegister destination value; return Flow.next)
      (do CpuM.writeRegister destination value; return Flow.next) := fun value h =>
    CpuM.related_bind (CpuM.related_writeRegister B.1 (fun _ => B) h value) fun _ _ _ h =>
      CpuM.related_pure h _
  unfold readStatus
  refine CpuM.related_get_bind ?_
  dsimp only
  rw [B.spsr? h, B.mode h, B.cpsr h]
  split_ifs
  · cases d.spsr? with
    | some word => exact hw word h
    | none => exact CpuM.related_bind (CpuM.related_note h _) fun _ _ _ h => hw _ h
  · exact hw _ h

theorem StatusWrite.related_execute (S : StatusRelation rel) (write : StatusWrite) (h : rel c d) :
    StepM.Related rel c d write.execute write.execute := by
  have hvalue : write.source.value c = write.source.value d := by
    unfold StatusSource.value
    cases write.source <;> simp only [S.read h]
  unfold StatusWrite.execute
  refine related_get_bind ?_
  dsimp only
  -- the new status keeps fields of the old one, on which the two sides agree
  rw [← hvalue, ← S.spsr? h, ← S.mode h, ← S.cpsr h]
  refine related_ite (fun _ => ?_) fun _ => ?_
  · cases c.spsr? with
    | some word =>
      exact related_bind (related_set (S.withSpsr h _)) fun _ _ _ h => related_pure h Flow.next
    | none =>
      exact related_bind (related_lift (CpuM.related_note h _)) fun _ _ _ h => related_pure h _
  · exact related_bind (related_installPsrWord S.toBankRelation h fun _ hp =>
      S.withMerged h write _ hp) fun _ _ _ h => related_pure h _

/-! ### Both instruction sets -/

/-- An instruction keeps a relation that status writes keep; for a software interrupt that takes one
that every change of status keeps. -/
theorem ArmInstruction.related_execute (S : StatusRelation rel) {instruction : ArmInstruction}
    (hm : (∃ comment, instruction = .softwareInterrupt comment) → ModeRelation rel)
    (hr : instruction.refusal? = none) (h : rel c d) :
    StepM.Related rel c d instruction.execute instruction.execute := by
  have B := S.toBankRelation
  cases instruction with
  | dataProcessing instruction => exact instruction.related_execute B.1 (fun _ => B) h
  | readStatus saved destination => exact related_lift (related_readStatus B saved destination h)
  | writeStatus write => exact write.related_execute S h
  | multiply operation => exact related_lift (operation.related_execute B.1 (fun _ => B) h)
  | multiplyLong operation => exact related_lift (operation.related_execute B h)
  | swap operation => exact operation.related_execute B h
  | branchExchange target =>
    refine related_get_bind ?_
    rw [B.read h]
    exact related_lift (CpuM.related_branchExchange B h _)
  | singleTransfer transfer => exact transfer.related_execute B.1 hr (fun _ => B) h
  | blockTransfer transfer => exact transfer.related_execute B.1 hr (fun _ => B) h
  | branch link offset =>
    refine related_lift ?_
    unfold executeBranch
    refine CpuM.related_get_bind ?_
    dsimp only
    rw [B.pc h]
    split_ifs
    · exact CpuM.related_bind (CpuM.related_modify (B.write h (by decide) _)) fun _ _ _ h =>
        CpuM.related_branchTo B h _
    · exact CpuM.related_branchTo B h _
  -- the entry is the one instruction that saves the mode
  | softwareInterrupt comment =>
    exact related_bind (related_lift (CpuM.related_raise (hm ⟨comment, rfl⟩) h _)) fun _ _ _ h =>
      related_pure h _

namespace ThumbInstruction

theorem related_writeResult (V : ViewRelation rel) (h : rel c d) (destination : LowRegister)
    (result : AluResult) :
    CpuM.Related rel c d (writeResult destination result) (writeResult destination result) :=
  CpuM.related_bind (CpuM.related_modify (V.withFlagsAfter (V.write h (by simp) _) _))
    fun _ _ _ h => CpuM.related_pure h _

theorem related_finish (V : ViewRelation rel) (h : rel c d) (operation : AluOperation)
    (destination : LowRegister) (result : AluResult) :
    CpuM.Related rel c d (finish operation destination result)
      (finish operation destination result) := by
  unfold finish
  split_ifs
  · exact CpuM.related_bind (CpuM.related_modify (V.withFlagsAfter h _)) fun _ _ _ h =>
      CpuM.related_pure h _
  · exact related_writeResult V h _ _

theorem related_executeAlu (V : ViewRelation rel) (h : rel c d) (operation : RegisterOperation)
    (source destination : LowRegister) :
    CpuM.Related rel c d (executeAlu operation source destination)
      (executeAlu operation source destination) := by
  unfold executeAlu
  refine CpuM.related_get_bind ?_
  dsimp only
  rw [V.read h, V.read h, V.flags h]
  cases operation with
  | process operation => exact related_finish V h _ _ _
  | shift kind =>
    exact CpuM.related_bind (CpuM.related_charge h 1) fun _ _ _ h => related_writeResult V h _ _
  | negate => exact related_writeResult V h _ _
  | multiply => exact Multiply.related_execute V (fun hd => absurd hd (by simp)) h

theorem related_executeHigh (B : BankRelation rel) (h : rel c d) (operation : HighOperation)
    (source destination : Register) :
    CpuM.Related rel c d (executeHigh operation source destination)
      (executeHigh operation source destination) := by
  unfold executeHigh
  refine CpuM.related_get_bind ?_
  rw [B.read h, B.read h]
  cases operation with
  | add => exact CpuM.related_writeOrBranch B.1 (fun _ => B) h _
  | compare =>
    exact CpuM.related_bind (CpuM.related_modify (B.withFlagsAfter h _)) fun _ _ _ h =>
      CpuM.related_pure h _
  | move => exact CpuM.related_writeOrBranch B.1 (fun _ => B) h _
  | exchange => exact CpuM.related_branchExchange B h _

@[inherit_doc ArmInstruction.related_execute]
theorem related_execute (B : BankRelation rel) {instruction : ThumbInstruction}
    (hm : (∃ comment, instruction = .softwareInterrupt comment) → ModeRelation rel)
    (hr : instruction.refusal? = none) (h : rel c d) :
    StepM.Related rel c d instruction.execute instruction.execute := by
  cases instruction with
  | shiftedMove kind amount source destination =>
    refine related_get_bind ?_
    rw [B.read h, B.flags h]
    exact related_lift (related_writeResult B.1 h _ _)
  | addSubtract subtract operand source destination =>
    refine related_get_bind ?_
    dsimp only
    simp only [B.read h]
    exact related_lift (related_writeResult B.1 h _ _)
  | immediate operation destination value =>
    refine related_get_bind ?_
    rw [B.read h, B.flags h]
    exact related_lift (related_finish B.1 h _ _ _)
  | alu operation source destination => exact related_lift (related_executeAlu B.1 h _ _ _)
  | highRegister operation source destination =>
    exact related_lift (related_executeHigh B h _ _ _)
  -- the base is the address of the instruction, rounded to a word
  | pcRelativeLoad data offset =>
    refine related_get_bind ?_
    rw [show wordPc c = wordPc d by unfold wordPc; rw [B.pc h]]
    exact SingleTransfer.related_executeAt B.1 rfl (fun _ => B) h _ _
  | registerOffset access data base offset =>
    exact SingleTransfer.related_execute B.1 rfl (fun _ => B) h
  | immediateOffset width load data base offset =>
    exact SingleTransfer.related_execute B.1 rfl (fun _ => B) h
  | spRelative load data offset => exact SingleTransfer.related_execute B.1 rfl (fun _ => B) h
  | loadAddress fromSp destination offset =>
    refine related_get_bind ?_
    dsimp only
    rw [B.read h, show wordPc c = wordPc d by unfold wordPc; rw [B.pc h]]
    exact related_bind (related_set (B.write h (by simp) _)) fun _ _ _ h => related_pure h _
  | adjustStack subtract amount =>
    refine related_get_bind ?_
    dsimp only
    rw [B.read h]
    exact related_bind (related_set (B.write h (by simp) _)) fun _ _ _ h => related_pure h _
  | push extra list => exact BlockTransfer.related_execute B.1 hr (fun _ => B) h
  | pop extra list => exact BlockTransfer.related_execute B.1 hr (fun _ => B) h
  | multiple load base list => exact BlockTransfer.related_execute B.1 hr (fun _ => B) h
  | conditionalBranch condition offset =>
    refine related_get_bind ?_
    rw [B.flags h, B.pc h]
    exact related_ite (fun _ => related_lift (CpuM.related_branchTo B h _)) fun _ =>
      related_pure h _
  | softwareInterrupt comment =>
    exact related_bind (related_lift (CpuM.related_raise (hm ⟨comment, rfl⟩) h _)) fun _ _ _ h =>
      related_pure h _
  | branch offset =>
    refine related_get_bind ?_
    rw [B.pc h]
    exact related_lift (CpuM.related_branchTo B h _)
  -- the halves of a call share the link register and nothing else
  | callFirst offset =>
    refine related_bind (related_modify ?_) fun _ _ _ h => related_pure h _
    rw [B.pc h]
    exact B.write h (by simp) _
  | callSecond offset =>
    refine related_get_bind ?_
    rw [B.pc h, B.read h]
    exact related_bind (related_set (B.write h (by simp) _)) fun _ _ _ h =>
      related_lift (CpuM.related_branchTo B h _)

end ThumbInstruction

/-! ### Opcodes and steps -/

theorem related_proceed (B : BankRelation rel) (h : rel c d) (set : InstructionSet) (flow : Flow) :
    CpuM.Related rel c d (proceed set flow) (proceed set flow) := by
  cases flow with
  | next =>
    refine CpuM.related_modify ?_
    rw [B.pc h]
    exact B.withPc h _
  | jump => exact CpuM.related_pure h ()

/-- An opcode keeps a relation that status writes keep; if it raises a software interrupt, that
takes a relation that every change of status keeps. -/
theorem Opcode.related_execute (S : StatusRelation rel) {opcode : Opcode}
    (hm : opcode.CallsSupervisor c.cpsr.flags → ModeRelation rel) (h : rel c d) :
    StepM.Related rel c d opcode.execute opcode.execute := by
  have B := S.toBankRelation
  -- the flags decide the condition, which is why they are related
  cases opcode with
  | arm word =>
    refine related_charge_bind (related_get_bind ?_)
    dsimp only
    rw [← B.flags h, B.fetchAddress h, B.instructionSet h]
    refine related_ite (fun hc => related_note_bind ?_) fun _ => related_note_bind ?_
    · -- decoding and refusal look at the opcode alone
      cases hi : ArmInstruction.ofOpcode? word with
      | none => exact related_throw h _
      | some instruction =>
        dsimp only
        cases hr : instruction.refusal? with
        | some reason => exact related_throw h _
        | none =>
          have hm' : (∃ comment, instruction = .softwareInterrupt comment) → ModeRelation rel :=
            fun ⟨comment, he⟩ => hm ⟨hc, comment, he ▸ hi⟩
          exact related_bind (ArmInstruction.related_execute S hm' hr h) fun flow _ _ h =>
            related_lift (related_proceed B h _ flow)
    · exact related_lift (related_proceed B h _ _)
  | thumb halfword =>
    refine related_charge_bind (related_get_bind ?_)
    rw [B.fetchAddress h, B.instructionSet h]
    refine related_note_bind ?_
    cases hi : ThumbInstruction.ofOpcode? halfword with
    | none => exact related_throw h _
    | some instruction =>
      dsimp only
      cases hr : instruction.refusal? with
      | some reason => exact related_throw h _
      | none =>
        have hm' : (∃ comment, instruction = .softwareInterrupt comment) → ModeRelation rel :=
          fun ⟨comment, he⟩ => hm ⟨rfl, comment, he ▸ hi⟩
        exact related_bind (ThumbInstruction.related_execute B hm' hr h) fun flow _ _ h =>
          related_lift (related_proceed B h _ flow)

/-- Obtaining an opcode keeps a relation between processors in the same status. -/
theorem ProgramStep.related_opcode (B : BankRelation rel) (h : rel c d) (step : ProgramStep) :
    StepM.Related rel c d step.opcode step.opcode := by
  cases step with
  | given opcode => exact related_pure h opcode
  | fetched =>
    refine related_get_bind ?_
    rw [B.instructionSet h, B.fetchAddress h]
    cases d.instructionSet with
    | arm => exact related_bind (related_read h _ _) fun word _ _ h => related_pure h _
    | thumb => exact related_bind (related_read h _ _) fun halfword _ _ h => related_pure h _

/-- A step keeps a relation that every change of status keeps. -/
theorem ProgramStep.related_perform (M : ModeRelation rel) (h : rel c d) (step : ProgramStep) :
    StepM.Related rel c d step.perform step.perform := by
  rw [perform_eq]
  exact related_bind (related_opcode M.toBankRelation h step) fun opcode _ _ h =>
    Opcode.related_execute M.toStatusRelation (fun _ => M) h

end Armv4t

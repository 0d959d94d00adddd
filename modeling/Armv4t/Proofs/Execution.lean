import Armv4t.Proofs.Ensures
import Armv4t.Step

/-!
# Executing an opcode, spelled out

What executing an opcode amounts to once its instruction is known: one cycle, one log record, and
the instruction, or the reason why there is none.  A data-processing instruction that writes no
program counter puts at most one request and then changes the processor by a function of its own
(`DataProcessing.updated`).
-/

namespace Armv4t

variable {c : Cpu}

/-! ### Lookups -/

theorem StepM.run_get_bind {α : Type} (f : Cpu → StepM α) :
    (get >>= f : StepM α).run.run c = (f c).run.run c := rfl

theorem StepM.run_lift_get_bind {α : Type} (f : Cpu → CpuM α) :
    (liftM (get >>= f : CpuM α) : StepM α).run.run c =
      (liftM (f c) : StepM α).run.run c := rfl

/-! ### Opcodes -/

/-- An ARM opcode whose condition holds takes a cycle and a log record, and then its instruction is
executed or refused. -/
theorem run_executeArm {opcode : Word} {instruction : ArmInstruction}
    (hc : (ArmInstruction.condition opcode).holds c.cpsr.flags = true)
    (h : ArmInstruction.ofOpcode? opcode = some instruction) :
    (executeArm opcode).run.run c =
      .request (.charge 1) fun _ => .note (.executesArm c.fetchAddress opcode)
        (match instruction.refusal? with
        | some reason =>
          .pure (.error (.unpredictableInstruction opcode c.fetchAddress reason), c)
        | none => (do proceed .arm (← instruction.execute) : StepM Unit).run.run c) := by
  unfold executeArm
  rw [h]
  dsimp only
  change BusProgram.request (.charge 1) _ = _
  refine congrArg _ (funext fun _ => ?_)
  -- the condition is looked up after the cycle, on the same processor
  change (ite _ _ _ : StepM Unit).run.run c = _
  rw [if_pos hc]
  cases instruction.refusal? <;> rfl

/-- The same for a Thumb opcode, which has no condition. -/
theorem run_executeThumb {opcode : Halfword} {instruction : ThumbInstruction}
    (h : ThumbInstruction.ofOpcode? opcode = some instruction) :
    (executeThumb opcode).run.run c =
      .request (.charge 1) fun _ => .note (.executesThumb c.fetchAddress opcode)
        (match instruction.refusal? with
        | some reason =>
          .pure (.error (.unpredictableInstruction (opcode.setWidth 32) c.fetchAddress reason), c)
        | none => (do proceed .thumb (← instruction.execute) : StepM Unit).run.run c) := by
  unfold executeThumb
  rw [h]
  dsimp only
  cases instruction.refusal? <;> rfl

/-! ### Data processing -/

namespace DataProcessing

/-- The processor after an instruction that writes no program counter, before the program counter
moves on. -/
def updated (instruction : DataProcessing) (cpu : Cpu) : Cpu :=
  let result := instruction.result cpu
  if instruction.operation.isTest then cpu.withFlagsAfter result
  else if instruction.setFlags then
    (cpu.write instruction.destination result.value).withFlagsAfter result
  else cpu.write instruction.destination result.value

/-- A test writes no register, and another instruction its destination. -/
def WritesPc (instruction : DataProcessing) : Prop :=
  instruction.operation.isTest = false ∧ instruction.destination = .pc

variable {instruction : DataProcessing}

/-- An instruction that writes no program counter is one update, after a cycle if it shifts by a
register. -/
theorem run_execute (h : ¬instruction.WritesPc) :
    instruction.execute.run.run c =
      if instruction.second.isByRegister then
        .request (.charge 1) fun _ => .pure (.ok .next, instruction.updated c)
      else .pure (.ok .next, instruction.updated c) := by
  have hrest : instruction.operation.isTest = false → instruction.destination ≠ .pc :=
    fun ht hd => h ⟨ht, hd⟩
  unfold execute updated
  cases hi : instruction.second.isByRegister <;> cases ht : instruction.operation.isTest
  case false.true | true.true => rfl
  all_goals
    -- without the program counter as destination only the flags make a difference
    simp only [Bool.false_eq_true, if_true, if_false, if_neg (hrest ht)]
    cases instruction.setFlags <;> rfl

/-- Without a shift by a register, no request is put. -/
theorem run_execute_of_not_byRegister (hi : instruction.second.isByRegister = false)
    (h : ¬instruction.WritesPc) :
    instruction.execute.run.run c = .pure (.ok .next, instruction.updated c) := by
  rw [run_execute h, hi]
  rfl

end DataProcessing

/-! ### Instructions that only the bus can stop -/

open StepM

/-- A multiplication goes on with the next instruction. -/
theorem Multiply.ensures_next (operation : Multiply) :
    CpuM.Ensures c operation.execute fun flow _ => flow = .next := by
  unfold execute
  refine CpuM.ensures_get_bind ?_
  refine CpuM.ensures_bind (CpuM.ensures_charge _) fun _ _ _ => ?_
  refine CpuM.ensures_bind (CpuM.ensures_writeRegister _ _) fun _ _ _ => ?_
  split_ifs
  · rfl
  · rfl

theorem LoadFormat.onlyBusFaults_load (format : LoadFormat) (address : Word) :
    OnlyBusFaults (format.load address) fun _ => True := by
  unfold load
  cases format with
  | signedHalfword =>
    dsimp only
    split_ifs
    all_goals
      exact stopsOnly_bind (onlyBusFaults_read _ _) fun _ _ => stopsOnly_pure trivial
  | _ => exact stopsOnly_bind (onlyBusFaults_read _ _) fun _ _ => stopsOnly_pure trivial

/-- A single transfer that loads no program counter goes on with the next instruction, unless the
bus fails. -/
theorem SingleTransfer.onlyBusFaults_executeAt {transfer : SingleTransfer}
    (h : transfer.data ≠ .pc) (base offset : Word) :
    OnlyBusFaults (transfer.executeAt base offset) (· = .next) := by
  unfold executeAt
  dsimp only
  cases transfer.access with
  | load format =>
    refine stopsOnly_bind (format.onlyBusFaults_load _) fun value _ => ?_
    refine stopsOnly_bind (stopsOnly_lift _) fun _ _ => ?_
    refine stopsOnly_when (stopsOnly_modify _) ?_
    -- the data register is not the program counter, so that the load does not branch
    rw [if_neg fun hd => h hd.1]
    unfold CpuM.writeOrBranch
    rw [if_neg h]
    exact fun _ => rfl
  | store width =>
    refine stopsOnly_get_bind fun cpu => ?_
    refine stopsOnly_bind (onlyBusFaults_write _ _ _) fun _ _ => ?_
    exact stopsOnly_when (stopsOnly_modify _) (stopsOnly_pure rfl)

theorem SingleTransfer.onlyBusFaults_execute {transfer : SingleTransfer}
    (h : transfer.data ≠ .pc) : OnlyBusFaults transfer.execute (· = .next) :=
  stopsOnly_get_bind fun _ => onlyBusFaults_executeAt h _ _

namespace BlockTransfer

theorem onlyBusFaults_loadWords (write : Register → Word → Cpu → Cpu) (registers : List Register)
    (address : Word) : OnlyBusFaults (loadWords write registers address) fun _ => True := by
  induction registers generalizing address with
  | nil => exact stopsOnly_pure trivial
  | cons register rest ih =>
    refine stopsOnly_bind (onlyBusFaults_read _ _) fun value _ => ?_
    exact stopsOnly_bind (stopsOnly_modify _) fun _ _ => ih _

theorem onlyBusFaults_storeWords (value : Register → Word) (registers : List Register)
    (address : Word) : OnlyBusFaults (storeWords value registers address) fun _ => True := by
  induction registers generalizing address with
  | nil => exact stopsOnly_pure trivial
  | cons register rest ih =>
    exact stopsOnly_bind (onlyBusFaults_write _ _ _) fun _ _ => ih _

/-- A block transfer that loads no program counter goes on with the next instruction, unless the bus
fails. -/
theorem onlyBusFaults_execute {transfer : BlockTransfer} (h : transfer.loadsPc = false) :
    OnlyBusFaults transfer.execute (· = .next) := by
  refine stopsOnly_get_bind fun cpu => ?_
  split_ifs with hl
  -- the other way to go elsewhere, a load of the program counter, is excluded
  · have hp : transfer.lists .pc = false := by
      simpa [loadsPc, hl] using h
    unfold executeLoad
    simp only [hp, Bool.false_eq_true, and_false, if_false]
    refine stopsOnly_bind (onlyBusFaults_loadWords _ _ _) fun _ _ => ?_
    refine stopsOnly_bind (stopsOnly_lift _) fun _ _ => ?_
    exact stopsOnly_bind (stopsOnly_modify _) fun _ _ => stopsOnly_pure rfl
  · refine stopsOnly_get_bind fun _ => ?_
    refine stopsOnly_bind (onlyBusFaults_storeWords _ _ _) fun _ _ => ?_
    exact stopsOnly_when (stopsOnly_modify _) (stopsOnly_pure rfl)

end BlockTransfer

end Armv4t

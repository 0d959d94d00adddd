import Armv4t.Config
import Armv4t.Memory
import Armv4t.Proofs.Congruence
import Armv4t.Proofs.Encoding
import Armv4t.Proofs.Execution

/-!
# Thumb instructions as ARM instructions

Most Thumb instructions stand for one unconditional ARM instruction; `ThumbInstruction.armForm?` is
the table.  An instruction and its form are the same computation
(`ThumbInstruction.execute_armForm`), and none of these computations sees the instruction set.
**Executing a Thumb opcode is therefore executing the ARM opcode it stands for**
(`executeThumb_matches_executeArm`), up to the length of the opcode and the record in the log.
-/

namespace Armv4t

/-! ### The table -/

/-- The shifter operand that is a register as it is. -/
def ShifterOperand.plain (source : Register) : ShifterOperand :=
  .byImmediate source .lsl 0

/-- The second operand of an addition or subtraction as a shifter operand. -/
def SmallOperand.shifterOperand : SmallOperand → ShifterOperand
  | register source => .plain (.low source)
  | immediate value => .immediate (value.setWidth 8) 0

namespace ThumbInstruction

/-- A data-processing instruction that sets the flags, on a low register.  The fields of the
registers that the operation does not use are marked so. -/
def flagForm (operation : AluOperation) (target : LowRegister) (second : ShifterOperand) :
    DataProcessing where
  operation := operation
  setFlags := true
  destination := .low (if operation.isTest then .unused else target)
  first := .low (if operation.isMove then .unused else target)
  second := second

/-- The ARM instruction that an operation between two low registers stands for. -/
def registerForm (operation : RegisterOperation) (source destination : LowRegister) :
    ArmInstruction :=
  match operation with
  | .process operation =>
    .dataProcessing (flagForm operation destination (.plain (.low source)))
  | .shift kind =>
    .dataProcessing
      (flagForm .mov destination (.byRegister (.low destination) kind (.low source)))
  | .negate =>
    .dataProcessing ⟨.rsb, true, .low destination, .low source, .immediate 0 0⟩
  -- the multiplier, whose value decides how many cycles it takes, is the old destination
  | .multiply => .multiply ⟨.low destination, .low source, .low destination, none, true⟩

/-- The ARM instruction that an operation between any two registers stands for, unless it is a
branch. -/
def highForm? (operation : HighOperation) (source destination : Register) :
    Option ArmInstruction :=
  match operation with
  | .add =>
    if destination = .pc then none
    else some (.dataProcessing ⟨.add, false, destination, destination, .plain source⟩)
  | .compare => some (.dataProcessing ⟨.cmp, true, .low .unused, destination, .plain source⟩)
  | .move =>
    if destination = .pc then none
    else some (.dataProcessing ⟨.mov, false, destination, .low .unused, .plain source⟩)
  | .exchange => none

/-- The ARM instruction that a Thumb instruction stands for, if there is one. -/
def armForm? : ThumbInstruction → Option ArmInstruction
  | shiftedMove kind amount source destination =>
    some (.dataProcessing
      (flagForm .mov destination (.byImmediate (.low source) kind amount)))
  | addSubtract subtract operand source destination =>
    some (.dataProcessing
      ⟨if subtract then .sub else .add, true, .low destination, .low source,
        operand.shifterOperand⟩)
  | immediate operation destination value =>
    some (.dataProcessing (flagForm operation.alu destination (.immediate value 0)))
  | alu operation source destination => some (registerForm operation source destination)
  | highRegister operation source destination => highForm? operation source destination
  | registerOffset access data base offset =>
    some (.singleTransfer
      (plainTransfer access (.low data) (.low base) (.register (.low offset) .lsl 0)))
  | immediateOffset width load data base offset =>
    some (.singleTransfer
      (plainTransfer (immediateAccess width load) (.low data) (.low base)
        (.immediate (scaledOffset width offset))))
  | spRelative load data offset =>
    some (.singleTransfer
      (plainTransfer (.ofWord load) (.low data) .sp (.immediate (wordOffset offset))))
  -- an eight-bit immediate rotated right by thirty bits is a number of words
  | loadAddress true destination offset =>
    some (.dataProcessing ⟨.add, false, .low destination, .sp, .immediate offset 15⟩)
  | adjustStack subtract amount =>
    some (.dataProcessing
      ⟨if subtract then .sub else .add, false, .sp, .sp, .immediate (amount.setWidth 8) 15⟩)
  | push extra list => some (.blockTransfer (pushTransfer extra list))
  | pop false list => some (.blockTransfer (popTransfer false list))
  | multiple load base list => some (.blockTransfer (multipleTransfer load base list))
  | _ => none

/-- The instructions that stand for an ARM instruction: all but the branches, the software
interrupt, those with the program counter as base or destination, and the halves of a call. -/
def StandsForArm : ThumbInstruction → Prop
  | shiftedMove .. | addSubtract .. | immediate .. | alu .. => True
  | highRegister operation _ destination =>
    operation = .compare ∨ (operation = .add ∨ operation = .move) ∧ destination ≠ .pc
  | registerOffset .. | immediateOffset .. | spRelative .. => True
  | loadAddress fromSp _ _ => fromSp = true
  | adjustStack .. | push .. | multiple .. => True
  | pop extra _ => extra = false
  | pcRelativeLoad .. | conditionalBranch .. | softwareInterrupt .. | branch .. | callFirst ..
  | callSecond .. => False

theorem exists_armForm {instruction : ThumbInstruction} (h : instruction.StandsForArm) :
    ∃ form, instruction.armForm? = some form := by
  cases instruction with
  | highRegister operation source destination =>
    -- a comparison may have the program counter, and the other two must not write it
    obtain rfl | ⟨rfl | rfl, hd⟩ := h
    · exact ⟨_, rfl⟩
    · exact ⟨_, if_neg hd⟩
    · exact ⟨_, if_neg hd⟩
  | loadAddress fromSp destination offset =>
    obtain rfl : fromSp = true := h
    exact ⟨_, rfl⟩
  | pop extra list =>
    obtain rfl : extra = false := h
    exact ⟨_, rfl⟩
  | pcRelativeLoad _ _ | conditionalBranch _ _ | softwareInterrupt _ | branch _ | callFirst _
  | callSecond _ => exact h.elim
  | _ => exact ⟨_, rfl⟩

end ThumbInstruction

/-! ### An instruction and its form are the same computation -/

variable {c : Cpu}

namespace ShifterOperand

open ThumbInstruction

theorem shifted_plain (source : Register) : (plain source).shifted c = ⟨c.read source, none⟩ := rfl

/-- An immediate that is not rotated. -/
theorem shifted_immediate (value : BitVec 8) :
    (immediate value 0).shifted c = ⟨value.setWidth 32, none⟩ := by
  have hrotate : (value.setWidth 32).rotateRight 0 = value.setWidth 32 := by
    ext i hi
    rw [BitVec.getElem_rotateRight, dif_pos hi]
    simp
  exact congrArg (Shifted.mk · none) hrotate

/-- An immediate rotated right by thirty bits counts words. -/
theorem shifted_wordOffset (value : BitVec 8) :
    ((immediate value 15).shifted c).value = (wordOffset value).setWidth 32 := by
  show (value.setWidth 32).rotateRight 30 = ((value ++ 0#2).setWidth 12).setWidth 32
  ext i hi
  simp only [BitVec.getElem_rotateRight, BitVec.getElem_setWidth, BitVec.getLsbD_setWidth,
    BitVec.getLsbD_append]
  grind

theorem shifted_smallOperand (operand : SmallOperand) :
    operand.shifterOperand.shifted c =
      ⟨match operand with
        | .register register => c.read (.low register)
        | .immediate value => value.setWidth 32, none⟩ := by
  cases operand with
  | register source => rfl
  | immediate value =>
    refine (shifted_immediate _).trans ?_
    simp

end ShifterOperand

/-- An operation that ignores its first operand gives the same result for any other. -/
theorem AluOperation.evaluate_of_isMove {operation : AluOperation} (h : operation.isMove = true)
    (first first' : Word) (second : Shifted) (carry : Bool) :
    operation.evaluate first second carry = operation.evaluate first' second carry := by
  -- only the two moves ignore it
  cases operation <;> first | rfl | exact absurd h (by decide)

namespace ThumbInstruction

theorem updated_flagForm (operation : AluOperation) (target : LowRegister)
    {second : ShifterOperand} (hi : second.isByRegister = false) :
    (flagForm operation target second).updated c =
      let result := operation.evaluate (c.read (.low target)) (second.shifted c)
        c.cpsr.flags.carry
      if operation.isTest then c.withFlagsAfter result
      else (c.write (.low target) result.value).withFlagsAfter result := by
  have hresult : (flagForm operation target second).result c =
      operation.evaluate (c.read (.low target)) (second.shifted c) c.cpsr.flags.carry := by
    unfold DataProcessing.result flagForm ShifterOperand.readBeside
    simp only [hi, Bool.false_eq_true, if_false]
    -- a move names R0 as first operand but does not look at it
    cases hm : operation.isMove with
    | true => exact AluOperation.evaluate_of_isMove hm ..
    | false => rfl
  unfold DataProcessing.updated
  rw [hresult]
  unfold flagForm
  cases operation.isTest <;> rfl

theorem run_finish (operation : AluOperation) (target : LowRegister) (result : AluResult) :
    (liftM (finish operation target result) : StepM Flow).run.run c =
      .pure (.ok .next, if operation.isTest then c.withFlagsAfter result
        else (c.write (.low target) result.value).withFlagsAfter result) := by
  unfold finish
  cases operation.isTest <;> rfl

/-- A flag form is the computation of its result followed by `finish`. -/
theorem execute_flagForm (operation : AluOperation) (target : LowRegister)
    {second : ShifterOperand} (hi : second.isByRegister = false) :
    (flagForm operation target second).execute.run.run c =
      (liftM (finish operation target (operation.evaluate (c.read (.low target))
        (second.shifted c) c.cpsr.flags.carry)) : StepM Flow).run.run c := by
  have hpc : ¬(flagForm operation target second).WritesPc := fun h =>
    absurd h.2 (by simp [flagForm])
  rw [DataProcessing.run_execute_of_not_byRegister hi hpc, updated_flagForm operation target hi,
    run_finish]

theorem execute_registerForm (operation : RegisterOperation) (source destination : LowRegister) :
    (alu operation source destination).execute =
      (registerForm operation source destination).execute := by
  refine funext fun c => ?_
  cases operation with
  | process operation =>
    -- the lookups are unfolded first, or comparing the two sides reduces the whole computation
    have h : (flagForm operation destination (.plain (.low source))).execute.run.run c = _ :=
      execute_flagForm operation destination rfl
    rw [ShifterOperand.shifted_plain] at h
    change (liftM (executeAlu (.process operation) source destination) : StepM Flow).run.run c = _
    unfold executeAlu
    rw [StepM.run_lift_get_bind]
    exact h.symm
  | shift kind =>
    have hpc : ¬(flagForm .mov destination
      (.byRegister (.low destination) kind (.low source))).WritesPc :=
        fun h => absurd h.2 (by simp [flagForm])
    exact (DataProcessing.run_execute hpc).symm
  | negate =>
    have hresult : DataProcessing.result ⟨.rsb, true, .low destination, .low source,
        .immediate 0 0⟩ c = subtractWithCarry 0 (c.read (.low source)) true := by
      unfold DataProcessing.result
      rw [ShifterOperand.shifted_immediate]
      rfl
    have h : (DataProcessing.execute ⟨.rsb, true, .low destination, .low source,
        .immediate 0 0⟩).run.run c = _ :=
      DataProcessing.run_execute fun h => absurd h.2 (by simp)
    unfold DataProcessing.updated at h
    rw [hresult] at h
    exact h.symm
  | multiply => rfl

/-- An instruction that sets no flags writes the value of its result. -/
theorem run_write {operation : AluOperation} (ht : operation.isTest = false)
    {destination : Register} (hd : destination ≠ .pc) (first : Register) {second : ShifterOperand}
    (hi : second.isByRegister = false) {value : Word}
    (hv : (operation.evaluate (c.read first) (second.shifted c) c.cpsr.flags.carry).value = value) :
    (DataProcessing.execute ⟨operation, false, destination, first, second⟩).run.run c =
      .pure (.ok .next, c.write destination value) := by
  rw [DataProcessing.run_execute_of_not_byRegister hi fun h => hd h.2]
  unfold DataProcessing.updated DataProcessing.result ShifterOperand.readBeside
  simp only [hi, ht, hv, Bool.false_eq_true, if_false]

theorem execute_highForm {operation : HighOperation} {source destination : Register}
    {form : ArmInstruction} (h : highForm? operation source destination = some form) :
    (highRegister operation source destination).execute = form.execute := by
  refine funext fun c => ?_
  unfold highForm? at h
  cases operation with
  | add =>
    dsimp only at h
    split_ifs at h with hd
    obtain rfl := Option.some.inj h
    change (liftM (executeHigh .add source destination) : StepM Flow).run.run c = _
    unfold executeHigh CpuM.writeOrBranch
    -- the register written is not the program counter, so that there is no branch
    rw [StepM.run_lift_get_bind]
    dsimp only
    rw [if_neg hd]
    exact Eq.symm (run_write rfl hd destination rfl (value_addWithCarry_false _ _))
  -- a comparison writes no register
  | compare =>
    obtain rfl := Option.some.inj h
    refine Eq.symm (DataProcessing.run_execute fun h => absurd h.1 ?_)
    simp [AluOperation.isTest]
  | move =>
    dsimp only at h
    split_ifs at h with hd
    obtain rfl := Option.some.inj h
    change (liftM (executeHigh .move source destination) : StepM Flow).run.run c = _
    unfold executeHigh CpuM.writeOrBranch
    rw [StepM.run_lift_get_bind]
    dsimp only
    rw [if_neg hd]
    exact Eq.symm (run_write rfl hd (.low .unused) rfl rfl)
  | exchange => exact absurd h (by simp)

/-- **A Thumb instruction and the ARM instruction it stands for are the same computation.** -/
theorem execute_armForm {instruction : ThumbInstruction} {form : ArmInstruction}
    (h : instruction.armForm? = some form) : instruction.execute = form.execute := by
  cases instruction with
  | shiftedMove kind amount source destination =>
    obtain rfl := Option.some.inj h
    refine funext fun c => ?_
    exact Eq.symm (DataProcessing.run_execute fun h => absurd h.2 (by simp [flagForm]))
  | addSubtract subtract operand source destination =>
    obtain rfl := Option.some.inj h
    -- the third operand is a register or three bits, neither of them shifted by a register
    have hi : operand.shifterOperand.isByRegister = false := by
      cases operand <;> rfl
    refine funext fun c => ?_
    have h : (DataProcessing.execute ⟨if subtract then .sub else .add, true, .low destination,
        .low source, operand.shifterOperand⟩).run.run c = _ :=
      DataProcessing.run_execute_of_not_byRegister hi fun h => absurd h.2 (by simp)
    unfold DataProcessing.updated DataProcessing.result ShifterOperand.readBeside at h
    rw [hi, ShifterOperand.shifted_smallOperand] at h
    cases subtract <;> exact h.symm
  | immediate operation destination value =>
    obtain rfl := Option.some.inj h
    refine funext fun c => ?_
    have h : (flagForm operation.alu destination (.immediate value 0)).execute.run.run c = _ :=
      execute_flagForm operation.alu destination rfl
    rw [ShifterOperand.shifted_immediate] at h
    change (execute (.immediate operation destination value)).run.run c = _
    unfold execute
    rw [StepM.run_get_bind]
    exact h.symm
  | alu operation source destination =>
    obtain rfl := Option.some.inj h
    exact execute_registerForm operation source destination
  | highRegister operation source destination => exact execute_highForm h
  | loadAddress fromSp destination offset =>
    cases fromSp with
    | true =>
      obtain rfl := Option.some.inj h
      refine funext fun c => Eq.symm (run_write rfl (by simp) .sp rfl ?_)
      refine (value_addWithCarry_false _ _).trans ?_
      rw [ShifterOperand.shifted_wordOffset]
      rfl
    | false => exact absurd h (by simp [armForm?])
  | adjustStack subtract amount =>
    obtain rfl := Option.some.inj h
    -- seven bits are scaled by four, as a rotated immediate of eight
    have hdistance :
        (wordOffset (amount.setWidth 8)).setWidth 32 = (amount ++ 0#2).setWidth 32 := by
      ext i hi
      simp only [wordOffset, BitVec.getElem_setWidth, BitVec.getLsbD_append,
        BitVec.getLsbD_setWidth]
      grind
    refine funext fun c => ?_
    cases subtract with
    | true =>
      refine Eq.symm (run_write rfl (by decide) .sp rfl ?_)
      refine (value_subtractWithCarry_true _ _).trans ?_
      rw [ShifterOperand.shifted_wordOffset, hdistance]
      rfl
    | false =>
      refine Eq.symm (run_write rfl (by decide) .sp rfl ?_)
      refine (value_addWithCarry_false _ _).trans ?_
      rw [ShifterOperand.shifted_wordOffset, hdistance]
      rfl
  | pop extra list =>
    cases extra with
    | true => exact absurd h (by simp [armForm?])
    | false =>
      obtain rfl := Option.some.inj h
      rfl
  | pcRelativeLoad _ _ | conditionalBranch _ _ | softwareInterrupt _ | branch _ | callFirst _
  | callSecond _ => exact absurd h (by simp [armForm?])
  -- transfers are executed by the same function in both sets
  | _ =>
    obtain rfl := Option.some.inj h
    rfl

end ThumbInstruction

/-! ### What the forms have in common -/

namespace ArmInstruction

/-- The instructions of the classes that forms belong to, without those that read or write more than
the registers and flags of the current mode. -/
def UsesViewOnly : ArmInstruction → Prop
  | dataProcessing instruction => instruction.destination ≠ .pc
  | multiply operation => operation.destination ≠ .pc
  | singleTransfer transfer => transfer.data ≠ .pc
  | blockTransfer transfer => transfer.mark = false ∧ transfer.loadsPc = false
  | _ => False

variable {instruction : ArmInstruction}

/-- Such an instruction keeps every relation between views. -/
theorem related_execute_of_usesViewOnly {rel : Cpu → Cpu → Prop} (V : Cpu.ViewRelation rel)
    (hu : instruction.UsesViewOnly) (hr : instruction.refusal? = none) {c d : Cpu}
    (h : rel c d) : StepM.Related rel c d instruction.execute instruction.execute := by
  cases instruction with
  | dataProcessing instruction => exact instruction.related_execute V (fun hd => absurd hd hu) h
  | multiply operation =>
    exact StepM.related_lift (operation.related_execute V (fun hd => absurd hd hu) h)
  | singleTransfer transfer => exact transfer.related_execute V hr (fun hd => absurd hd hu) h
  | blockTransfer transfer =>
    refine transfer.related_execute V hr ?_ h
    rintro (hm | hp)
    · exact absurd (hu.1.symm.trans hm) (by decide)
    · exact absurd (hu.2.symm.trans hp) (by decide)
  | _ => exact hu.elim

/-- It goes on with the next instruction, unless the bus fails. -/
theorem onlyBusFaults_of_usesViewOnly (hu : instruction.UsesViewOnly) :
    StepM.OnlyBusFaults instruction.execute (· = .next) := by
  cases instruction with
  | dataProcessing instruction =>
    intro c
    -- without the program counter for its destination, no status is restored
    have hpc : ¬instruction.WritesPc := fun h => hu h.2
    change (instruction.execute.run.run c).Always _
    rw [DataProcessing.run_execute hpc]
    split_ifs
    · exact fun _ => rfl
    · rfl
  | multiply operation =>
    exact fun c => StepM.ensures_lift operation.ensures_next fun _ _ h => h
  | singleTransfer transfer => exact transfer.onlyBusFaults_execute hu
  | blockTransfer transfer => exact transfer.onlyBusFaults_execute hu.2
  | _ => exact hu.elim

end ArmInstruction

namespace ThumbInstruction

/-- An offset in bytes of at most five bits of accesses fits in eight bits. -/
theorem high_scaledOffset (width : Width) (offset : BitVec 5) :
    (scaledOffset width offset).extractLsb' 8 4 = 0 := by
  have hoffset := offset.isLt
  have hzero : BitVec.toNat (0 : BitVec 4) = 0 := rfl
  apply BitVec.eq_of_toNat_eq
  unfold scaledOffset
  rw [BitVec.extractLsb'_toNat, BitVec.toNat_mul, BitVec.toNat_setWidth, Nat.shiftRight_eq_div_pow]
  cases width <;> simp only [Width.bytes, BitVec.toNat_ofNat] <;> omega

theorem encodable_plainTransfer (access : Access) (data base : Register) {offset : Offset}
    (h : offset.IsHalfword) : (plainTransfer access data base offset).Encodable := by
  unfold SingleTransfer.Encodable
  split
  case h_5 => exact ⟨h, by simp [plainTransfer]⟩
  all_goals trivial

/-- A form uses the view only, has an opcode, and is refused when the instruction is. -/
theorem form_properties {instruction : ThumbInstruction} {form : ArmInstruction}
    (h : instruction.armForm? = some form) :
    form.UsesViewOnly ∧ form.Encodable ∧ form.refusal? = instruction.refusal? := by
  cases instruction with
  | shiftedMove kind amount source destination =>
    obtain rfl := Option.some.inj h
    exact ⟨by simp [ArmInstruction.UsesViewOnly, flagForm], fun _ => rfl, rfl⟩
  | addSubtract subtract operand source destination =>
    obtain rfl := Option.some.inj h
    exact ⟨by simp [ArmInstruction.UsesViewOnly], fun _ => rfl, rfl⟩
  | immediate operation destination value =>
    obtain rfl := Option.some.inj h
    exact ⟨by simp [ArmInstruction.UsesViewOnly, flagForm], fun _ => rfl, rfl⟩
  | alu operation source destination =>
    obtain rfl := Option.some.inj h
    cases operation with
    | multiply => exact ⟨by simp [ArmInstruction.UsesViewOnly, registerForm], trivial, rfl⟩
    | _ =>
      exact ⟨by simp [ArmInstruction.UsesViewOnly, registerForm, flagForm], fun _ => rfl, rfl⟩
  | highRegister operation source destination =>
    change highForm? operation source destination = some form at h
    unfold highForm? at h
    cases operation with
    | compare =>
      obtain rfl := Option.some.inj h
      exact ⟨by simp [ArmInstruction.UsesViewOnly], fun _ => rfl, rfl⟩
    | exchange => exact absurd h (by simp)
    | add =>
      dsimp only at h
      split_ifs at h with hd
      obtain rfl := Option.some.inj h
      exact ⟨hd, fun ht => absurd ht Bool.false_ne_true, rfl⟩
    | move =>
      dsimp only at h
      split_ifs at h with hd
      obtain rfl := Option.some.inj h
      exact ⟨hd, fun ht => absurd ht Bool.false_ne_true, rfl⟩
  | registerOffset access data base offset =>
    obtain rfl := Option.some.inj h
    exact ⟨by simp [ArmInstruction.UsesViewOnly, plainTransfer],
      encodable_plainTransfer _ _ _ ⟨rfl, rfl⟩, rfl⟩
  | immediateOffset width load data base offset =>
    obtain rfl := Option.some.inj h
    exact ⟨by simp [ArmInstruction.UsesViewOnly, plainTransfer],
      encodable_plainTransfer _ _ _ (high_scaledOffset width offset), rfl⟩
  | spRelative load data offset =>
    obtain rfl := Option.some.inj h
    refine ⟨by simp [ArmInstruction.UsesViewOnly, plainTransfer], ?_, rfl⟩
    cases load <;> trivial
  | loadAddress fromSp destination offset =>
    cases fromSp with
    | true =>
      obtain rfl := Option.some.inj h
      exact ⟨by simp [ArmInstruction.UsesViewOnly], fun ht => absurd ht Bool.false_ne_true, rfl⟩
    | false => exact absurd h (by simp [armForm?])
  | adjustStack subtract amount =>
    obtain rfl := Option.some.inj h
    refine ⟨by simp [ArmInstruction.UsesViewOnly], fun ht => ?_, rfl⟩
    cases subtract <;> exact absurd ht Bool.false_ne_true
  | push extra list =>
    obtain rfl := Option.some.inj h
    exact ⟨⟨rfl, rfl⟩, trivial, rfl⟩
  | pop extra list =>
    cases extra with
    | true => exact absurd h (by simp [armForm?])
    | false =>
      obtain rfl := Option.some.inj h
      -- the list of a plain pop ends below the program counter
      have hpc : (popTransfer false list).loadsPc = false := by
        show (BitVec.ofBool false ++ 0#7 ++ list).getLsbD 15 = false
        rw [BitVec.getLsbD_append]
        rfl
      exact ⟨⟨rfl, hpc⟩, trivial, rfl⟩
  -- and so does a list of eight bits
  | multiple load base list =>
    obtain rfl := Option.some.inj h
    have hpc : (list.setWidth 16).getLsbD 15 = false := by
      rw [BitVec.getLsbD_setWidth]
      simp
    exact ⟨⟨rfl, Bool.and_eq_false_iff.2 (.inr hpc)⟩, trivial, rfl⟩
  | pcRelativeLoad _ _ | conditionalBranch _ _ | softwareInterrupt _ | branch _ | callFirst _
  | callSecond _ => exact absurd h (by simp [armForm?])

end ThumbInstruction

/-! ### Executing opcodes -/

/-- A processor on its way through a Thumb instruction and the processor beside it that goes through
the ARM instruction: the second is the first in ARM state, and neither has moved on. -/
structure InStep (start c d : Cpu) : Prop where
  pc : c.pc = start.pc
  instructionSet : c.instructionSet = start.instructionSet
  arm : d = c.withInstructionSet .arm

theorem viewRelation_inStep (start : Cpu) : Cpu.ViewRelation (InStep start) where
  read {c d} h register := by
    rw [h.arm]
    cases register <;> rfl
  flags {c d} h := by
    rw [h.arm]
    rfl
  -- a register other than the program counter belongs to neither of the two
  write {c d} h register hr value := by
    refine ⟨(Cpu.pc_write c value hr).trans h.pc,
      (Cpu.instructionSet_write c register value).trans h.instructionSet, ?_⟩
    rw [h.arm]
    cases register with
    | pc => exact absurd rfl hr
    | _ => rfl
  withFlags {c d} h flags := by
    refine ⟨h.pc, h.instructionSet, ?_⟩
    rw [h.arm]
    rfl

/-- The outcomes of a Thumb opcode and of the ARM opcode it stands for, executed on `start` and on
`start` in ARM state. -/
inductive SameOutcome (thumb : Halfword) (arm : Word) (start : Cpu) :
    Except Fault Unit × Cpu → Except Fault Unit × Cpu → Prop
  /-- Both succeed: the processors are alike but for the instruction set, which neither changes, and
  have moved on by one instruction each. -/
  | done {ended : Cpu} (pc : ended.pc = start.pc)
      (set : ended.instructionSet = start.instructionSet) :
      SameOutcome thumb arm start (.ok (), { ended with pc := start.pc + 2 })
        (.ok (), { ended.withInstructionSet .arm with pc := start.pc + 4 })
  /-- Both are refused for the same reason and change nothing. -/
  | refused (reason : Unpredictable) :
      SameOutcome thumb arm start
        (.error (.unpredictableInstruction (thumb.setWidth 32) start.fetchAddress reason), start)
        (.error (.unpredictableInstruction arm (start.withInstructionSet .arm).fetchAddress reason),
          start.withInstructionSet .arm)
  /-- Both stop at the same fault of the bus, with processors that are alike. -/
  | failed (reason : BusFault) {ended : Cpu} (pc : ended.pc = start.pc)
      (set : ended.instructionSet = start.instructionSet) :
      SameOutcome thumb arm start (.error (.bus reason), ended)
        (.error (.bus reason), ended.withInstructionSet .arm)

/-- The two opcodes put the same requests and have the same outcome. -/
theorem simulates_executeArm {opcode : Halfword} {instruction : ThumbInstruction}
    (h : ThumbInstruction.ofOpcode? opcode = some instruction) {form : ArmInstruction}
    (hf : instruction.armForm? = some form) (start : Cpu) :
    BusProgram.Simulates (fun _ _ => True) (SameOutcome opcode form.opcode start)
      ((executeThumb opcode).run.run start)
      ((executeArm form.opcode).run.run (start.withInstructionSet .arm)) := by
  obtain ⟨hview, hencode, hrefusal⟩ := ThumbInstruction.form_properties hf
  have harm : ArmInstruction.ofOpcode? form.opcode = some form :=
    ArmInstruction.ofOpcode?_opcode hencode
  have hc : (ArmInstruction.condition form.opcode).holds
      (start.withInstructionSet .arm).cpsr.flags = true := by
    rw [ArmInstruction.condition_opcode]
    rfl
  rw [run_executeThumb h, run_executeArm hc harm, hrefusal]
  refine .request _ fun _ => .note trivial ?_
  cases hr : instruction.refusal? with
  | some reason => exact .pure (.refused reason)
  | none =>
    dsimp only
    rw [ThumbInstruction.execute_armForm hf]
    have hstart : InStep start start (start.withInstructionSet .arm) := ⟨rfl, rfl, rfl⟩
    -- both sides now execute the form, on processors that differ in the instruction set alone
    have hrelated := ArmInstruction.related_execute_of_usesViewOnly (viewRelation_inStep start)
      hview (hrefusal.trans hr) hstart
    have hnext := ArmInstruction.onlyBusFaults_of_usesViewOnly hview start
    have hboth := BusProgram.Simulates.and_always hrelated hnext
    refine BusProgram.Simulates.bind (hboth.mono (fun _ _ _ => trivial) fun _ _ h => h) ?_
    rintro ⟨result, ended⟩ ⟨_, _⟩ ⟨⟨rfl, hstep⟩, hresult⟩
    obtain rfl := hstep.arm
    cases result with
    | ok flow =>
      obtain rfl : flow = .next := hresult
      have hdone : SameOutcome opcode form.opcode start _ _ :=
        .done hstep.pc hstep.instructionSet
      rw [← hstep.pc] at hdone
      exact .pure hdone
    -- the bus fails before the program counter moves on
    | error fault =>
      obtain ⟨reason, rfl⟩ := hresult
      exact .pure (.failed reason hstep.pc hstep.instructionSet)

/-- **A Thumb opcode does what the ARM opcode it stands for does.**  On every processor and over
every bus, the Thumb opcode and the unconditional ARM opcode, executed in ARM state, make the same
events in the same order, leave the bus in the same state and have the same outcome. -/
theorem executeThumb_matches_executeArm {σ : Type} (bus : Bus σ) (state : σ) (start : Cpu)
    {opcode : Halfword} {instruction : ThumbInstruction}
    (h : ThumbInstruction.ofOpcode? opcode = some instruction) (hs : instruction.StandsForArm) :
    ∃ form, instruction.armForm? = some form ∧
      ArmInstruction.ofOpcode? form.opcode = some form ∧
      ArmInstruction.condition form.opcode = .always ∧
      BusRun.Matches (fun _ _ => True) (SameOutcome opcode form.opcode start) Eq
        ((executeThumb opcode).runOn bus start state)
        ((executeArm form.opcode).runOn bus (start.withInstructionSet .arm) state) := by
  obtain ⟨form, hf⟩ := ThumbInstruction.exists_armForm hs
  obtain ⟨_, hencode, _⟩ := ThumbInstruction.form_properties hf
  refine ⟨form, hf, ArmInstruction.ofOpcode?_opcode hencode, form.condition_opcode, ?_⟩
  exact (simulates_executeArm h hf start).run bus.alike_self rfl

/-- The addition of two low registers, on a processor after a reset. -/
theorem executeThumb_matches_executeArm_adds :
    BusRun.Matches (fun _ _ => True) (SameOutcome 0x1888 0xE0910002 .reset) Eq
      ((executeThumb 0x1888).runOn Memory.bus .reset { regions := [] })
      ((executeArm 0xE0910002).runOn Memory.bus (Cpu.reset.withInstructionSet .arm)
        { regions := [] }) := by
  obtain ⟨form, hf, _, _, h⟩ :=
    executeThumb_matches_executeArm Memory.bus { regions := [] } Cpu.reset
      (show ThumbInstruction.ofOpcode? 0x1888 = some (.addSubtract false (.register 2) 1 0) by
        decide) trivial
  obtain rfl := Option.some.inj hf
  exact h

end Armv4t

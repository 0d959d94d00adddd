import Armv4t.Proofs.Arithmetic
import Armv4t.Proofs.ArmForm
import Armv4t.Proofs.Shifter

/-!
# Data processing by the reference

Main statement: an ARM opcode for data processing does what the reference says and nothing else
(`dataProcessing_by_reference`).  Its operands are register values and the output of the barrel
shifter, taken bit by bit; the operation gives what its meaning says; and `DataProcessing.Outcome`
lists the ways in which the opcode ends, each with the whole of the processor in view.
-/

namespace Armv4t

open StepM

variable {c : Cpu}

namespace ShifterOperand

/-! ### Operands -/

/-- How much further ahead the program counter is read beside the operand. -/
def delay (operand : ShifterOperand) : Word :=
  if operand.isByRegister then 4 else 0

/-- The value of an operand register beside the operand. -/
def operandValue (operand : ShifterOperand) (cpu : Cpu) (register : Register) : Word :=
  if register = .pc then cpu.pc + operand.delay else cpu.read register

/-- The output of the shifter, one bit at a time. -/
def output (operand : ShifterOperand) (cpu : Cpu) : Shifted :=
  match operand with
  | immediate value rotation => ShiftKind.ror.steps (value.setWidth 32) (2 * rotation.toNat)
  | byImmediate source kind amount =>
    kind.immediateSteps (operand.operandValue cpu source) amount cpu.cpsr.flags.carry
  | byRegister source kind amount =>
    kind.steps (operand.operandValue cpu source) ((operand.operandValue cpu amount).toNat % 256)

theorem readBeside_eq (operand : ShifterOperand) (cpu : Cpu) (register : Register) :
    operand.readBeside cpu register = operand.operandValue cpu register := by
  unfold readBeside operandValue delay Cpu.readLate
  by_cases hr : register = .pc
  · subst hr
    cases operand.isByRegister with
    | false => exact (BitVec.add_zero cpu.pc).symm
    | true => rfl
  · simp only [if_neg hr, ite_self]

/-- The tables of the barrel shifter shift one bit at a time. -/
theorem shifted_eq_output (operand : ShifterOperand) (cpu : Cpu) :
    operand.shifted cpu = operand.output cpu := by
  rcases operand with ⟨value, rotation⟩ | ⟨source, kind, amount⟩ | ⟨source, kind, amount⟩
  -- each form of the operand is a number of single steps on what its register reads
  · exact rotatedImmediate_eq_steps value rotation
  · have hsource := readBeside_eq (byImmediate source kind amount) cpu source
    show kind.byImmediate (cpu.read source) amount _ = kind.immediateSteps _ amount _
    rw [← hsource]
    exact kind.byImmediate_eq_steps _ amount _
  · have hsource := readBeside_eq (byRegister source kind amount) cpu source
    have hamount := readBeside_eq (byRegister source kind amount) cpu amount
    show kind.byRegister (cpu.readLate source) (cpu.readLate amount) = kind.steps _ _
    rw [← hsource, ← hamount]
    exact kind.byRegister_eq_steps _ _

end ShifterOperand

namespace DataProcessing

/-! ### Outcomes -/

/-- The cycles before the effect: one, and one more when the shifter waits for a register. -/
def cycles (instruction : DataProcessing) : List BusEvent :=
  .charge 1 :: if instruction.second.isByRegister then [.charge 1] else []

/-- The ends of a data-processing instruction of the ARM set whose operation gives a result. -/
inductive Outcome (instruction : DataProcessing) (c : Cpu) (result : AluResult) :
    List BusEvent → Except Fault Unit → Cpu → Prop
  /-- A test sets the flags, and writes no register whatever its destination field says. -/
  | tested {d : Cpu} {flags : Flags} (ht : instruction.operation.isTest = true)
      (hf : Flags.SetBy result c.cpsr.flags flags)
      (hd : c.ChangedTo { c.cpsr with flags := flags } (fun _ => False) d) (hpc : d.pc = c.pc + 4) :
    Outcome instruction c result instruction.cycles (.ok ()) d
  /-- Without S, the destination is written and the status is left alone. -/
  | written {d : Cpu} (ht : instruction.operation.isTest = false)
      (hr : instruction.destination ≠ .pc) (hs : instruction.setFlags = false)
      (hv : d.read instruction.destination = result.value)
      (hd : c.ChangedTo c.cpsr (· = instruction.destination) d) (hpc : d.pc = c.pc + 4) :
    Outcome instruction c result instruction.cycles (.ok ()) d
  /-- With S, the destination is written and the flags are set. -/
  | writtenWithFlags {d : Cpu} {flags : Flags} (ht : instruction.operation.isTest = false)
      (hr : instruction.destination ≠ .pc) (hs : instruction.setFlags = true)
      (hf : Flags.SetBy result c.cpsr.flags flags)
      (hv : d.read instruction.destination = result.value)
      (hd : c.ChangedTo { c.cpsr with flags := flags } (· = instruction.destination) d)
      (hpc : d.pc = c.pc + 4) :
    Outcome instruction c result instruction.cycles (.ok ()) d
  /-- To the program counter without S, or with S in a mode that has no saved status: a branch. -/
  | branched {d : Cpu} (ht : instruction.operation.isTest = false)
      (hr : instruction.destination = .pc)
      (hs : instruction.setFlags = true → c.spsr? = none)
      (hd : c.ChangedTo c.cpsr (fun _ => False) d)
      (ha : d.fetchAddress = c.instructionSet.align result.value) :
    Outcome instruction c result
      (instruction.cycles ++ [.branch d.fetchAddress c.instructionSet, .charge 2]) (.ok ()) d
  /-- To the program counter with S: the saved status is restored, and the branch to the result that
  was computed before is one in the restored instruction set. -/
  | restored {d : Cpu} {psr : Psr} (ht : instruction.operation.isTest = false)
      (hr : instruction.destination = .pc) (hs : instruction.setFlags = true)
      (hw : c.spsr? = some psr.toWord) (hd : c.ChangedTo psr (fun _ => False) d)
      (ha : d.fetchAddress = psr.instructionSet.align result.value) :
    Outcome instruction c result
      (instruction.cycles ++ [.branch d.fetchAddress psr.instructionSet, .charge 2]) (.ok ()) d
  /-- A saved word that is the form of no status cannot be restored. -/
  | refused {word : Word} (ht : instruction.operation.isTest = false)
      (hr : instruction.destination = .pc) (hs : instruction.setFlags = true)
      (hw : c.spsr? = some word) (hn : ∀ psr : Psr, psr.toWord ≠ word) :
    Outcome instruction c result instruction.cycles
      (.error (.invalidMode (Psr.modeField word))) c

variable {instruction : DataProcessing}

/-- The operation gives, on the operands, what its meaning says. -/
theorem gives_result (instruction : DataProcessing) (c : Cpu) :
    instruction.operation.meaning.Gives (instruction.second.operandValue c instruction.first)
      (instruction.second.output c) c.cpsr.flags.carry (instruction.result c) := by
  rw [← ShifterOperand.readBeside_eq, ← ShifterOperand.shifted_eq_output]
  exact AluOperation.gives_evaluate ..

/-- An instruction that writes no program counter goes on after its cycles, with the processor
updated. -/
theorem yields_execute_of_not_writesPc (h : ¬instruction.WritesPc) :
    Yields c instruction.execute fun events result d =>
      result = .ok .next ∧ d = instruction.updated c ∧
        .charge 1 :: events = instruction.cycles := by
  unfold Yields cycles
  rw [run_execute h]
  split_ifs
  · exact fun _ => ⟨rfl, rfl, rfl⟩
  · exact ⟨rfl, rfl, rfl⟩

/-- The opcode of such an instruction moves on to the next one. -/
theorem yields_opcode_of_not_writesPc (h : ¬instruction.WritesPc) {opcode : Opcode}
    (hf : opcode.armForm? = some (.dataProcessing instruction))
    (hc : opcode.holds c.cpsr.flags = true) :
    Yields c opcode.execute fun events result d => result = .ok () ∧
      events = instruction.cycles ∧ d = (instruction.updated c).advanced opcode.instructionSet := by
  apply Opcode.yields_execute_of_next hf hc rfl
  apply BusProgram.Yields.mono (yields_execute_of_not_writesPc h)
  rintro events ⟨result, d⟩ ⟨hresult, hd, hevents⟩
  obtain rfl : d = instruction.updated c := hd
  exact ⟨hresult, hevents, rfl⟩

/-- A test, and an instruction with S, sets the flags. -/
theorem flags_updated (h : instruction.operation.isTest = true ∨ instruction.setFlags = true) :
    (instruction.updated c).cpsr.flags = c.cpsr.flags.after (instruction.result c) := by
  unfold updated
  dsimp only
  split_ifs with ht hs
  · rfl
  · show (c.write _ _).cpsr.flags.after _ = _
    rw [Cpu.cpsr_write]
  · rcases h with ht' | hs'
    · exact absurd ht' ht
    · exact absurd hs' hs

/-- An instruction that is no test writes its destination. -/
theorem read_updated (ht : instruction.operation.isTest = false)
    (hr : instruction.destination ≠ .pc) :
    (instruction.updated c).read instruction.destination = (instruction.result c).value := by
  have hread : (c.write instruction.destination (instruction.result c).value).read
      instruction.destination = (instruction.result c).value := by
    rw [Cpu.read_write c _ hr, if_pos rfl]
  unfold updated
  rw [if_neg (Bool.eq_false_iff.1 ht)]
  split_ifs
  · exact (Cpu.read_withFlags _ _ _).trans hread
  · exact hread

/-- An instruction that writes no program counter sets flags or writes its destination. -/
theorem outcome_updated (h : ¬instruction.WritesPc) :
    Outcome instruction c (instruction.result c) instruction.cycles (.ok ())
      ((instruction.updated c).advanced .arm) := by
  have hflags := c.cpsr.flags.setBy_after (instruction.result c)
  by_cases ht : instruction.operation.isTest = true
  -- a test changes the flags only
  · have hkept : c.ChangedTo c.cpsr (fun _ => False) c := (Cpu.AgreesBut.refl c).changedTo
    unfold updated
    rw [if_pos ht]
    exact .tested ht hflags ((hkept.withFlags _).advanced .arm) rfl
  · have hf : instruction.operation.isTest = false := Bool.eq_false_iff.2 ht
    have hr : instruction.destination ≠ .pc := fun hr => h ⟨hf, hr⟩
    -- what is written is read back, as it is not the program counter
    have hread : ((instruction.updated c).advanced .arm).read instruction.destination =
        (instruction.result c).value := by
      rw [Cpu.read_advanced _ _ hr, read_updated hf hr]
    have hagrees : c.AgreesBut c.mode (· = instruction.destination)
        (c.write instruction.destination (instruction.result c).value) := by
      apply Cpu.AgreesBut.write (.refl c) _ hr
      rfl
    have hpc := congrArg (· + 4#32) (c.pc_write (instruction.result c).value hr)
    unfold updated at hread ⊢
    rw [if_neg ht] at hread ⊢
    by_cases hs : instruction.setFlags = true
    -- the flags come after the write and leave the register alone
    · have hchanged := hagrees.changedTo.withFlags (c.cpsr.flags.after (instruction.result c))
      rw [if_pos hs] at hread ⊢
      unfold Cpu.withFlagsAfter at hread ⊢
      rw [Cpu.cpsr_write] at hread ⊢
      exact .writtenWithFlags hf hr hs hflags hread (hchanged.advanced .arm) hpc
    · rw [if_neg hs] at hread ⊢
      exact .written hf hr (Bool.eq_false_iff.2 hs) hread (hagrees.changedTo.advanced .arm) hpc

/-- A branch ends an instruction that writes the program counter. -/
theorem outcome_branched (h : instruction.WritesPc)
    (hs : instruction.setFlags = true → c.spsr? = none) :
    Outcome instruction c (instruction.result c)
      (instruction.cycles ++ c.branchEvents (instruction.result c).value) (.ok ())
      (c.branched (instruction.result c).value) := by
  have hkept : c.ChangedTo c.cpsr (fun _ => False) c := (Cpu.AgreesBut.refl c).changedTo
  have ha := c.fetchAddress_branched (instruction.result c).value
  unfold Cpu.branchEvents
  rw [← ha]
  exact .branched h.1 h.2 hs (hkept.withPc _) ha

/-- After a restoration, the branch is one of the processor with the saved status. -/
theorem outcome_restored (h : instruction.WritesPc) (hs : instruction.setFlags = true) {psr : Psr}
    (hw : c.spsr? = some psr.toWord) :
    Outcome instruction c (instruction.result c)
      (instruction.cycles ++ (c.withPsr psr).branchEvents (instruction.result c).value) (.ok ())
      ((c.withPsr psr).branched (instruction.result c).value) := by
  have hkept : c.ChangedTo c.cpsr (fun _ => False) c := (Cpu.AgreesBut.refl c).changedTo
  have ha := (c.withPsr psr).fetchAddress_branched (instruction.result c).value
  unfold Cpu.branchEvents
  rw [← ha]
  exact .restored h.1 h.2 hs hw ((hkept.withPsr psr).withPc _) ha

/-- An instruction that writes the program counter branches, after a restoration with S. -/
theorem yields_execute_of_writesPc (h : instruction.WritesPc) (word : Word) :
    Yields c instruction.execute
      ((Opcode.arm word).Proceeds (Outcome instruction c (instruction.result c))) := by
  unfold execute
  apply yields_charge_when
  apply yields_get_bind
  dsimp only
  -- the result is not a test's, and its destination is the program counter
  rw [if_neg (Bool.eq_false_iff.1 h.1), if_pos h.2]
  by_cases hs : instruction.setFlags = true
  · rw [if_pos hs]
    apply yields_restorePsr_bind
    -- there is no saved status in User and System mode
    · intro hn
      apply yields_lift
      apply CpuM.yields_branchTo
      exact outcome_branched h fun _ => hn
    · intro psr hw
      apply yields_lift
      apply CpuM.yields_branchTo
      exact outcome_restored h hs hw
    · -- the saved word is refused before the program counter is touched
      intro saved hw hn
      have hnone (psr : Psr) : psr.toWord ≠ saved := by
        intro hword
        rw [Psr.ofWord?_eq_some_iff.2 hword] at hn
        exact absurd hn (by simp)
      have hout : Outcome instruction c (instruction.result c) instruction.cycles
          (.error (.invalidMode (Psr.modeField saved))) c := .refused h.1 h.2 hs hw hnone
      rw [← instruction.cycles.append_nil] at hout
      exact hout
  · rw [if_neg hs]
    apply yields_lift
    apply CpuM.yields_branchTo
    exact outcome_branched h fun hset => absurd hset hs

/-- The outcomes are all the ends of an opcode for data processing. -/
theorem yields_outcome {word : Word}
    (hi : ArmInstruction.ofOpcode? word = some (.dataProcessing instruction))
    (hc : (ArmInstruction.condition word).holds c.cpsr.flags = true) :
    Yields c (executeArm word) (Outcome instruction c (instruction.result c)) := by
  have hopcode : (Opcode.arm word).armForm? = some (.dataProcessing instruction) := hi
  by_cases h : instruction.WritesPc
  · exact Opcode.yields_execute hopcode hc rfl (yields_execute_of_writesPc h word)
  · apply BusProgram.Yields.mono (yields_opcode_of_not_writesPc h hopcode hc)
    rintro events ⟨result, d⟩ ⟨hresult, hevents, hd⟩
    dsimp only at hresult hevents hd
    rw [hresult, hevents, hd]
    exact outcome_updated h

end DataProcessing

/-! ### The opcodes -/

/-- **A data-processing opcode does what the reference says and nothing else.**  Its operation gives
what its meaning says on the operand values and the output of the shifter, where the program counter
reads two instructions ahead of the opcode, or one word more; and the opcode ends in the one outcome
that this result, the destination, S and the saved status leave. -/
theorem dataProcessing_by_reference {σ : Type} (bus : Bus σ) (state : σ) (c : Cpu) {opcode : Word}
    (hk : ArmKind.ofOpcode opcode = .dataProcessing)
    (hc : (ArmInstruction.condition opcode).holds c.cpsr.flags = true) :
    let instruction := ArmInstruction.ofDataProcessing opcode
    let run := (executeArm opcode).runOn bus c state
    (c.instructionSet = .arm → c.pc = c.fetchAddress + 8) ∧
      ∃ result, instruction.operation.meaning.Gives
          (instruction.second.operandValue c instruction.first) (instruction.second.output c)
          c.cpsr.flags.carry result ∧
        instruction.Outcome c result run.events run.value.1 run.value.2 := by
  have hi : ArmInstruction.ofOpcode? opcode =
      some (.dataProcessing (ArmInstruction.ofDataProcessing opcode)) := by
    unfold ArmInstruction.ofOpcode?
    rw [hk]
  dsimp only
  constructor
  · intro hset
    unfold Cpu.fetchAddress
    rw [hset]
    exact (BitVec.sub_add_cancel c.pc 8).symm
  · refine ⟨_, DataProcessing.gives_result _ c, ?_⟩
    exact BusProgram.Yields.run (DataProcessing.yields_outcome hi hc) bus state

/-- After a reset, where the program counter reads 8, adding to it its own value shifted by a
register gives twice 12, and sets no flag. -/
theorem dataProcessing_by_reference_pc :
    let run := (executeArm 0xE09F011F).runOn Memory.bus Cpu.reset { regions := [] }
    Cpu.reset.pc = 8 ∧ run.value.1 = .ok () ∧ run.value.2.read (.ofField 0#4) = 24 ∧
      run.value.2.cpsr = Cpu.reset.cpsr ∧ run.events = [.charge 1, .charge 1] := by
  dsimp only
  obtain ⟨-, result, hgives, hout⟩ := dataProcessing_by_reference Memory.bus { regions := [] }
    Cpu.reset (show ArmKind.ofOpcode 0xE09F011F = .dataProcessing by decide) (by decide)
  -- both operands read the program counter a word further ahead, and the shift is by zero
  have hresult : result = ⟨24, some false, some false⟩ := by
    apply Eq.trans hgives
    decide
  generalize (executeArm 0xE09F011F).runOn Memory.bus Cpu.reset { regions := [] } = run at hout ⊢
  obtain ⟨⟨ended, d⟩, _, events, _⟩ := run
  dsimp only at hout ⊢
  subst hresult
  -- the operation has a destination, sets the flags and does not write the program counter
  cases hout with
  | writtenWithFlags ht hr hs hf hv hd hpc =>
    refine ⟨by decide, rfl, hv, ?_, rfl⟩
    rw [hd.cpsr, hf.eq_after]
    decide
  | tested ht => exact absurd ht (by decide)
  | written ht hr hs => exact absurd hs (by decide)
  | branched ht hr => exact absurd hr (by decide)
  | restored ht hr => exact absurd hr (by decide)
  | refused ht hr => exact absurd hr (by decide)

end Armv4t

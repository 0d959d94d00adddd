import Armv4t.Step
import Mathlib.Tactic.Common

/-!
# Opcodes and steps of a program

An `Opcode` is an opcode of either instruction set.  A `ProgramStep` executes an opcode: the one
that is fetched at the fetch address, or a given one, whatever the instruction set in use.  Every
step is a choice of its opcode and then the execution of the opcode (`ProgramStep.perform_eq`).
-/

namespace Armv4t

/-- An opcode of either instruction set. -/
inductive Opcode where
  | arm (word : Word)
  | thumb (halfword : Halfword)
deriving DecidableEq, Repr

/-- The block transfer that an instruction is, if it is one. -/
def ArmInstruction.block? : ArmInstruction → Option BlockTransfer
  | blockTransfer transfer => some transfer
  | _ => none

@[inherit_doc ArmInstruction.block?]
def ThumbInstruction.block? : ThumbInstruction → Option BlockTransfer
  | push extra list => some (pushTransfer extra list)
  | pop extra list => some (popTransfer extra list)
  | multiple load base list => some (multipleTransfer load base list)
  | _ => none

namespace Opcode

/-- The instruction set that the opcode belongs to. -/
def instructionSet : Opcode → InstructionSet
  | arm _ => .arm
  | thumb _ => .thumb

/-- The opcode as a fault reports it. -/
def toWord : Opcode → Word
  | arm word => word
  | thumb halfword => halfword.setWidth 32

/-- Executes the opcode as the instruction at the fetch address. -/
def execute : Opcode → StepM Unit
  | arm word => executeArm word
  | thumb halfword => executeThumb halfword

/-- Whether the condition of the opcode holds; a Thumb opcode has none. -/
def holds (flags : Flags) : Opcode → Bool
  | arm word => (ArmInstruction.condition word).holds flags
  | thumb _ => true

/-- The block transfer that the opcode says, if it says one. -/
def block? : Opcode → Option BlockTransfer
  | arm word => (ArmInstruction.ofOpcode? word).bind ArmInstruction.block?
  | thumb halfword => (ThumbInstruction.ofOpcode? halfword).bind ThumbInstruction.block?

/-- The opcode says a software interrupt. -/
def IsSoftwareInterrupt : Opcode → Prop
  | arm word => ∃ comment, ArmInstruction.ofOpcode? word = some (.softwareInterrupt comment)
  | thumb halfword =>
    ∃ comment, ThumbInstruction.ofOpcode? halfword = some (.softwareInterrupt comment)

theorem isSoftwareInterrupt_arm {word : Word} :
    (arm word).IsSoftwareInterrupt ↔ ArmKind.ofOpcode word = .softwareInterrupt := by
  cases hk : ArmKind.ofOpcode word <;> simp [IsSoftwareInterrupt, ArmInstruction.ofOpcode?, hk]

theorem isSoftwareInterrupt_thumb {halfword : Halfword} :
    (thumb halfword).IsSoftwareInterrupt ↔ ThumbKind.ofOpcode halfword = .softwareInterrupt := by
  cases hk : ThumbKind.ofOpcode halfword with
  | pushPop | longBranch =>
    simp only [IsSoftwareInterrupt, ThumbInstruction.ofOpcode?, hk]
    cases halfword.getLsbD 11 <;> simp
  | _ => simp [IsSoftwareInterrupt, ThumbInstruction.ofOpcode?, hk]

instance : DecidablePred IsSoftwareInterrupt
  | arm _ => decidable_of_iff _ isSoftwareInterrupt_arm.symm
  | thumb _ => decidable_of_iff _ isSoftwareInterrupt_thumb.symm

/-- Executing the opcode under the given flags raises a software interrupt. -/
def CallsSupervisor (opcode : Opcode) (flags : Flags) : Prop :=
  opcode.holds flags = true ∧ opcode.IsSoftwareInterrupt

end Opcode

/-- Fetches the opcode of the next instruction over the bus. -/
def fetch : StepM Opcode := do
  let cpu ← get
  match cpu.instructionSet with
  | .arm => return .arm (← StepM.read .word cpu.fetchAddress)
  | .thumb => return .thumb (← StepM.read .halfword cpu.fetchAddress)

/-- Fetching the next instruction and executing it is a step. -/
theorem fetch_execute : (do (← fetch).execute) = step := by
  unfold fetch step
  rw [bind_assoc]
  refine congrArg _ (funext fun cpu => ?_)
  cases cpu.instructionSet with
  | arm => simp [Opcode.execute]
  | thumb => simp [Opcode.execute]

/-- One step of a program. -/
inductive ProgramStep where
  /-- Fetch the next instruction and execute it. -/
  | fetched
  /-- Execute a given opcode. -/
  | given (opcode : Opcode)
deriving DecidableEq, Repr

namespace ProgramStep

/-- Performs the step. -/
def perform : ProgramStep → StepM Unit
  | fetched => step
  | given opcode => opcode.execute

/-- Obtains the opcode that the step executes. -/
def opcode : ProgramStep → StepM Opcode
  | fetched => fetch
  | given opcode => return opcode

/-- A step obtains its opcode and executes it. -/
theorem perform_eq (step : ProgramStep) : step.perform = (do (← step.opcode).execute) := by
  cases step with
  | fetched => exact fetch_execute.symm
  | given opcode => exact (pure_bind opcode Opcode.execute).symm

/-- From a given state of processor and bus, the step executes an opcode that raises a software
interrupt. -/
def CallsSupervisor {σ : Type} (step : ProgramStep) (bus : Bus σ) (cpu : Cpu) (state : σ) : Prop :=
  ∃ opcode, (step.opcode.runOn bus cpu state).value.1 = .ok opcode ∧
    opcode.CallsSupervisor cpu.cpsr.flags

/-- A given opcode that is no software interrupt raises none. -/
theorem not_callsSupervisor_given {opcode : Opcode} (h : ¬opcode.IsSoftwareInterrupt) {σ : Type}
    {bus : Bus σ} {cpu : Cpu} {state : σ} : ¬(given opcode).CallsSupervisor bus cpu state := by
  rintro ⟨_, ⟨⟩, hcall⟩
  exact h hcall.2

end ProgramStep

/-! ### Programs -/

/-- Performs steps one after the other, going on after a fault. -/
def runSteps {σ : Type} (bus : Bus σ) (steps : List ProgramStep) (cpu : Cpu) (state : σ) :
    BusRun σ (List (Except Fault Unit) × Cpu) :=
  ((steps.mapM fun (step : ProgramStep) => step.perform.run).run cpu).run bus state

/-- No step of a run executes an opcode that raises a software interrupt. -/
def WithoutSupervisorCall {σ : Type} (bus : Bus σ) : List ProgramStep → Cpu → σ → Prop
  | [], _, _ => True
  | step :: rest, cpu, state =>
    let run := step.perform.runOn bus cpu state
    ¬step.CallsSupervisor bus cpu state ∧
      WithoutSupervisorCall bus rest run.value.2 run.state

end Armv4t

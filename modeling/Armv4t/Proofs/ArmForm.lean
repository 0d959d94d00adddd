import Armv4t.Proofs.Endings
import Armv4t.Proofs.Frame
import Armv4t.Proofs.ThumbAsArm

/-!
# Opcodes by the ARM instruction they say

`Opcode.armForm?` is the ARM instruction that an opcode of either instruction set says or, as a
Thumb opcode, stands for.  What such an opcode does is what the instruction does, after one cycle
and before the program counter moves on (`Opcode.yields_execute`), so that a statement about an
instruction is one about the opcodes of both sets.
-/

namespace Armv4t

open StepM

variable {c : Cpu}

/-- The ARM instruction that an opcode says or stands for. -/
def Opcode.armForm? : Opcode → Option ArmInstruction
  | arm word => ArmInstruction.ofOpcode? word
  | thumb halfword => (ThumbInstruction.ofOpcode? halfword).bind ThumbInstruction.armForm?

/-- Moving the program counter past its instruction shows in no other register. -/
theorem Cpu.ChangedTo.advanced {psr : Psr} {written : Register → Prop} {d : Cpu}
    (h : c.ChangedTo psr written d) (set : InstructionSet) :
    c.ChangedTo psr written (d.advanced set) :=
  h.withPc _

theorem Cpu.read_advanced (cpu : Cpu) (set : InstructionSet) {register : Register}
    (h : register ≠ .pc) : (cpu.advanced set).read register = cpu.read register :=
  cpu.read_withPc _ h

namespace Opcode

variable {opcode : Opcode} {form : ArmInstruction}

/-- The opcode that an instruction is encoded by says it, and is not conditional. -/
theorem armForm?_opcode (h : form.Encodable) : (arm form.opcode).armForm? = some form :=
  ArmInstruction.ofOpcode?_opcode h

theorem holds_opcode (form : ArmInstruction) (flags : Flags) :
    (arm form.opcode).holds flags = true := by
  show (ArmInstruction.condition form.opcode).holds flags = true
  rw [ArmInstruction.condition_opcode]
  rfl

/-- What has to hold at the end of an instruction for `post` to hold at the end of its opcode: a
cycle has passed before, and the program counter moves on unless there was a branch or a fault. -/
def Proceeds (opcode : Opcode) (post : List BusEvent → Except Fault Unit → Cpu → Prop)
    (events : List BusEvent) : Except Fault Flow → Cpu → Prop
  | .ok .next, d => post (.charge 1 :: events) (.ok ()) (d.advanced opcode.instructionSet)
  | .ok .jump, d => post (.charge 1 :: events) (.ok ()) d
  | .error fault, d => post (.charge 1 :: events) (.error fault) d

/-- After a cycle, what an instruction yields is followed by the move of the program counter. -/
theorem yields_proceed {x : StepM Flow} {post : List BusEvent → Except Fault Unit → Cpu → Prop}
    (h : Yields c x (opcode.Proceeds post)) :
    Yields c (do proceed opcode.instructionSet (← x) : StepM Unit) fun events =>
      post (.charge 1 :: events) := by
  apply yields_bind h
  · rintro events (_ | _) d hd
    all_goals
      rw [← events.append_nil] at hd
      exact hd
  · intro events fault d hd
    exact hd

/-- What a Thumb instruction yields, its opcode yields after a cycle. -/
theorem yields_executeThumb {halfword : Halfword} {instruction : ThumbInstruction}
    {post : List BusEvent → Except Fault Unit → Cpu → Prop}
    (hi : ThumbInstruction.ofOpcode? halfword = some instruction)
    (hr : instruction.refusal? = none)
    (h : Yields c instruction.execute ((thumb halfword).Proceeds post)) :
    Yields c (executeThumb halfword) post := by
  have hproceed := yields_proceed h
  have htree := run_executeThumb (c := c) hi
  rw [hr] at htree
  unfold Yields
  rw [htree]
  -- a log record is no event
  exact fun _ => hproceed

section Execute

variable (hf : opcode.armForm? = some form) (hc : opcode.holds c.cpsr.flags = true)
  (hr : form.refusal? = none)

include hf hc hr

/-- An opcode that says an instruction with a defined effect takes a cycle and a log record, and
then performs the instruction. -/
theorem run_execute_of_armForm? :
    ∃ record, opcode.execute.run.run c = .request (.charge 1) fun _ => .note record
      ((do proceed opcode.instructionSet (← form.execute) : StepM Unit).run.run c) := by
  rcases opcode with word | halfword
  · have htree := run_executeArm hc hf
    rw [hr] at htree
    exact ⟨_, htree⟩
  · -- a Thumb instruction is refused and executed as its ARM form is
    obtain ⟨instruction, hi, ha⟩ := Option.bind_eq_some_iff.1 hf
    obtain ⟨-, -, hrefusal⟩ := ThumbInstruction.form_properties ha
    have htree := run_executeThumb (c := c) hi
    rw [← hrefusal, hr, ThumbInstruction.execute_armForm ha] at htree
    exact ⟨_, htree⟩

/-- What an instruction yields, its opcode yields after a cycle, the program counter moving on. -/
theorem yields_execute {post : List BusEvent → Except Fault Unit → Cpu → Prop}
    (h : Yields c form.execute (opcode.Proceeds post)) : Yields c opcode.execute post := by
  obtain ⟨record, htree⟩ := run_execute_of_armForm? hf hc hr
  have hproceed := yields_proceed h
  unfold Yields
  rw [htree]
  exact fun _ => hproceed

/-- An instruction that goes on with the next one. -/
theorem yields_execute_of_next {post : List BusEvent → Cpu → Prop}
    (h : Yields c form.execute fun events result d =>
      result = .ok .next ∧ post (.charge 1 :: events) (d.advanced opcode.instructionSet)) :
    Yields c opcode.execute fun events result d => result = .ok () ∧ post events d := by
  apply yields_execute hf hc hr
  apply BusProgram.Yields.mono h
  rintro events ⟨result, d⟩ ⟨hresult, hp⟩
  obtain rfl : result = .ok .next := hresult
  exact ⟨rfl, hp⟩

/-- An instruction that goes on with the next one, without an access, from a known processor. -/
theorem yields_execute_of_lift {x : CpuM Flow} {updated : Cpu} (hx : form.execute = liftM x)
    (h : CpuM.Yields c x fun _ flow d => flow = .next ∧ d = updated) :
    Yields c opcode.execute fun _ result d =>
      result = .ok () ∧ d = updated.advanced opcode.instructionSet := by
  apply yields_execute_of_next hf hc hr
  rw [hx]
  apply yields_lift
  apply BusProgram.Yields.mono h
  rintro _ ⟨flow, d⟩ ⟨hflow, hd⟩
  exact ⟨congrArg Except.ok hflow, congrArg (Cpu.advanced · _) hd⟩

end Execute

end Opcode

end Armv4t

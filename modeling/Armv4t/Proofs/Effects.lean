import Armv4t.Proofs.Endings
import Armv4t.Proofs.Failure
import Armv4t.Proofs.UserMode

/-!
# What an opcode cannot reach

Main statements:

* no instruction touches the bank of another mode (`hidden_cells_unchanged`), but for a load of the
  registers of User mode and a software interrupt, whether it succeeds, fails or changes the mode;
* the instruction set and the mode change by few instructions only (`state_changes_only_by`), each
  change of the instruction set is announced as a branch, and a status write is none of them.

Both are read off the ways in which an opcode stops (`Opcode.stops_execute`) and comes to its end
(`Opcode.ends_execute`).
-/

namespace Armv4t

open StepM

variable {allows : Effect → Prop} {c d : Cpu} {opcode : Opcode} {events : List BusEvent}
  {fault : Fault} {flow : Flow}

/-- From a given state of processor and bus, the step executes an opcode that can have the
effect. -/
def ProgramStep.Allows {σ : Type} (step : ProgramStep) (bus : Bus σ) (cpu : Cpu) (state : σ)
    (effect : Effect) : Prop :=
  ∃ opcode, (step.opcode.runOn bus cpu state).value.1 = .ok opcode ∧
    opcode.Allows cpu.cpsr.flags effect

/-! ### Hidden cells -/

/-- A register of a mode names no cell that an instruction with the given effects can write: the
current mode does not see the cell, and neither a load for User mode nor the link register of a
software interrupt leads there. -/
structure Cpu.Hidden (allows : Effect → Prop) (cpu : Cpu) (mode : Mode) (register : Register) :
    Prop where
  current : ¬SameCell cpu.mode mode register
  user : allows (.fillUser register) → ¬SameCell .user mode register
  handler : allows .call → ¬(register = .lr ∧ mode.bank = .supervisor)

/-- The saved status of a bank is none that an instruction with the given effects can write. -/
structure Cpu.HiddenStatus (allows : Effect → Prop) (cpu : Cpu) (bank : Bank) : Prop where
  current : allows .saveStatus → ¬(bank = cpu.mode.bank ∧ bank ≠ .user)
  handler : allows .call → bank ≠ .supervisor

section Hidden

variable {mode : Mode} {register : Register} {bank : Bank}

theorem Cpu.Hidden.ne_pc (h : c.Hidden allows mode register) : register ≠ .pc := by
  rintro rfl
  exact h.current trivial

theorem Redirected.readIn_eq (h : Redirected allows c d) (hh : c.Hidden allows mode register) :
    d.readIn mode register = c.readIn mode register := by
  cases h with
  | within h => exact h.readIn mode register hh.current hh.user
  | exchanged ha h set =>
    rw [Cpu.readIn_withInstructionSet]
    exact h.readIn mode register hh.current hh.user
  | restored ha h hs =>
    rw [Cpu.readIn_withPsr]
    exact h.readIn mode register hh.current hh.user
  | called ha =>
    -- entry writes the link register of Supervisor mode, after the change to that mode
    have hlr : ¬(register = .lr ∧ Cpu.SameCell .supervisor mode .lr) := by
      rintro ⟨rfl, hs⟩
      exact hh.handler ha ⟨rfl, hs.symm⟩
    unfold Cpu.handling
    rw [Cpu.readIn_withSpsr, Cpu.readIn_write _ _ (by decide), Cpu.readIn_withPsr]
    exact if_neg hlr

theorem InstructionEnd.readIn_eq (h : InstructionEnd allows c events flow d)
    (hh : c.Hidden allows mode register) : d.readIn mode register = c.readIn mode register := by
  cases h with
  | next hq h => exact h.readIn mode register hh.current hh.user
  | status hq ha hp => rw [Cpu.readIn_withPsr]
  | saved hq ha value => rw [Cpu.readIn_withSpsr]
  | jump hq h address => exact (Cpu.readIn_withPc _ _ mode hh.ne_pc).trans (h.readIn_eq hh)

theorem OpcodeEnd.readIn_eq (h : OpcodeEnd opcode c events d)
    (hh : c.Hidden (opcode.Allows c.cpsr.flags) mode register) :
    d.readIn mode register = c.readIn mode register := by
  cases h with
  | skipped h => exact Cpu.readIn_withPc _ _ mode hh.ne_pc
  | next h => exact (Cpu.readIn_withPc _ _ mode hh.ne_pc).trans (h.readIn_eq hh)
  | jump h => exact h.readIn_eq hh

/-- A load that stops has filled registers that it is allowed to fill. -/
theorem InstructionStop.readIn_eq {block? : Option BlockTransfer}
    (h : InstructionStop block? c events fault d)
    (ha : ∀ transfer, block? = some transfer → transfer.load = true →
      transfer.isUserBank = true → transfer.lists register = true →
        allows (.fillUser register))
    (hh : c.Hidden allows mode register) : d.readIn mode register = c.readIn mode register := by
  cases h with
  | invalidMode | access | store => rfl
  | load reason hb hl hw =>
    refine BlockTransfer.readIn_loaded_of_notMem hw fun hm => ?_
    -- the register is among those whose words have been read
    have hlisted := (List.mem_filter.1 (List.mem_of_mem_take hm)).2
    unfold BlockTransfer.bankMode
    split_ifs with hbank
    · exact hh.user (ha _ hb hl hbank hlisted)
    · exact hh.current

theorem OpcodeStop.readIn_eq (h : OpcodeStop opcode c events fault d)
    (hc : opcode.holds c.cpsr.flags = true)
    (hh : c.Hidden (opcode.Allows c.cpsr.flags) mode register) :
    d.readIn mode register = c.readIn mode register := by
  cases h with
  | undefined | unpredictable => rfl
  | executing h =>
    refine h.readIn_eq (fun transfer hb hl hu hr => ?_) hh
    cases opcode with
    -- of the instructions only a marked block transfer fills User mode's registers
    | arm word =>
      obtain ⟨instruction, hi, hb⟩ := Option.bind_eq_some_iff.1 hb
      obtain rfl := ArmInstruction.eq_of_block? hb
      exact .arm hc hi (.blockLoadUser hl hu hr)
    | thumb halfword =>
      obtain ⟨instruction, hi, hb⟩ := Option.bind_eq_some_iff.1 hb
      rw [BlockTransfer.isUserBank, ThumbInstruction.mark_of_block? hb] at hu
      exact absurd hu Bool.false_ne_true

/-! ### Hidden statuses -/

theorem Redirected.spsrs_eq (h : Redirected allows c d) (hh : c.HiddenStatus allows bank) :
    d.spsrs.get bank = c.spsrs.get bank := by
  cases h with
  | within h => rw [h.spsrs]
  | exchanged ha h set => exact congrArg (Banked.get · bank) h.spsrs
  | restored ha h hs => rw [Cpu.spsrs_withPsr, h.spsrs]
  | called ha =>
    have hbank : ¬(bank = .supervisor ∧ bank ≠ .user) := fun hb => hh.handler ha hb.1
    unfold Cpu.handling
    rw [Cpu.get_spsrs_withSpsr, Cpu.spsrs_write, Cpu.spsrs_withPsr]
    exact if_neg hbank

theorem InstructionEnd.spsrs_eq (h : InstructionEnd allows c events flow d)
    (hh : c.HiddenStatus allows bank) : d.spsrs.get bank = c.spsrs.get bank := by
  cases h with
  | next hq h => rw [h.spsrs]
  | status hq ha hp => rw [Cpu.spsrs_withPsr]
  | saved hq ha value => rw [Cpu.get_spsrs_withSpsr, if_neg (hh.current ha)]
  | jump hq h address => exact h.spsrs_eq hh

theorem OpcodeEnd.spsrs_eq (h : OpcodeEnd opcode c events d)
    (hh : c.HiddenStatus (opcode.Allows c.cpsr.flags) bank) :
    d.spsrs.get bank = c.spsrs.get bank := by
  cases h with
  | skipped h => rfl
  | next h => exact h.spsrs_eq hh
  | jump h => exact h.spsrs_eq hh

end Hidden

/-- **No instruction touches the bank of another mode.**  Whether a step succeeds or fails, and
whatever mode it leads to, every register cell that the mode at its start does not see is as it was,
except the listed registers of User mode in a load of these and the link register of Supervisor mode
in a software interrupt; and every saved status is as it was, except that of the current mode in a
write of the saved status and that of Supervisor mode in a software interrupt. -/
theorem hidden_cells_unchanged (step : ProgramStep) (c : Cpu) {σ : Type} (bus : Bus σ)
    (state : σ) :
    let ended := (step.perform.runOn bus c state).value.2
    (∀ mode register, c.Hidden (step.Allows bus c state) mode register →
      ended.readIn mode register = c.readIn mode register) ∧
    ∀ bank, c.HiddenStatus (step.Allows bus c state) bank →
      ended.spsrs.get bank = c.spsrs.get bank := by
  intro ended
  rcases step.perform_cases c bus state with ⟨fault, hr⟩ | ⟨opcode, before, events, ho, -, hend⟩
  -- without an opcode nothing has happened
  · have hended : ended = c := congrArg Prod.snd hr
    rw [hended]
    exact ⟨fun _ _ _ => rfl, fun _ _ => rfl⟩
  -- what the opcode may do, the step may do
  · have himp (effect : Effect) (h : opcode.Allows c.cpsr.flags effect) :
        step.Allows bus c state effect := ⟨opcode, ho, h⟩
    refine ⟨fun mode register hh => ?_, fun bank hh => ?_⟩
    · have hh : c.Hidden (opcode.Allows c.cpsr.flags) mode register :=
        ⟨hh.current, fun ha => hh.user (himp _ ha), fun ha => hh.handler (himp _ ha)⟩
      rcases hend with ⟨fault, -, hc, hstop⟩ | ⟨-, hend⟩
      · exact hstop.readIn_eq hc hh
      · exact hend.readIn_eq hh
    · have hh : c.HiddenStatus (opcode.Allows c.cpsr.flags) bank :=
        ⟨fun ha => hh.current (himp _ ha), fun ha => hh.handler (himp _ ha)⟩
      rcases hend with ⟨fault, -, hc, hstop⟩ | ⟨-, hend⟩
      · exact congrArg (Banked.get · bank) hstop.keeps.1.2.2
      · exact hend.spsrs_eq hh

/-- A software interrupt from System mode leaves the stack pointer of the interrupt handler and the
saved status of the abort handler. -/
theorem hidden_cells_unchanged_softwareInterrupt :
    let start : Cpu := .ofConfig (.directBoot 0x8000)
    let step : ProgramStep := .given (.arm 0xEF000000)
    let run := step.perform.runOn Memory.bus start { regions := [] }
    run.value.2.mode = .supervisor ∧ run.value.2.readIn .irq .sp = 0x03007FA0 ∧
      run.value.2.spsrs.get .abort = 0 := by
  intro start step run
  have h := hidden_cells_unchanged step start Memory.bus { regions := [] }
  have hcell : start.Hidden (step.Allows Memory.bus start { regions := [] }) .irq .sp :=
    -- neither the call nor its entry reaches the bank of the interrupt handler
    ⟨by decide, fun _ => by decide, fun _ => by decide⟩
  have hstatus : start.HiddenStatus (step.Allows Memory.bus start { regions := [] }) .abort :=
    ⟨fun _ => by decide, fun _ => by decide⟩
  exact ⟨rfl, h.1 .irq .sp hcell, h.2 .abort hstatus⟩

/-! ### Status words -/

/-- The instruction set is what bit 5 says. -/
theorem Psr.instructionSet_eq_of_bit {psr other : Psr}
    (h : psr.toWord.getLsbD 5 = other.toWord.getLsbD 5) :
    psr.instructionSet = other.instructionSet := by
  rw [getLsbD_toWord_instructionSet, getLsbD_toWord_instructionSet] at h
  revert h
  cases psr.instructionSet <;> cases other.instructionSet <;> decide

namespace StatusWrite

variable {write : StatusWrite} {value : Word} {psr : Psr}

/-- No mask holds the bit of the instruction set. -/
theorem instructionSet_eq_of_merge
    (h : Psr.ofWord? (merge (write.currentMask c.mode) value c.cpsr.toWord) = some psr) :
    psr.instructionSet = c.instructionSet := by
  have hmask : (write.currentMask c.mode).getLsbD 5 = false := by
    have hbit : (~~~instructionSetMask).getLsbD 5 = false := by decide
    rw [currentMask, BitVec.getLsbD_and, hbit, Bool.and_false]
  apply Psr.instructionSet_eq_of_bit
  rw [Psr.toWord_of_ofWord? h, getLsbD_merge, hmask]
  rfl

/-- The mask holds the bits of the mode only for the control field in a privileged mode. -/
theorem getLsbD_currentMask_mode (write : StatusWrite) (mode : Mode) {i : Nat} (h : i < 5) :
    (write.currentMask mode).getLsbD i = (write.fields.getLsbD 0 && mode.isPrivileged) := by
  unfold currentMask mask Mode.isPrivileged
  by_cases hu : mode = .user
  · rw [if_pos hu, hu]
    revert i
    cases write.fields.getLsbD 3 <;> cases write.fields.getLsbD 0 <;> decide
  · have hprivileged : (mode != .user) = true := bne_iff_ne.2 hu
    rw [if_neg hu, hprivileged]
    revert i
    cases write.fields.getLsbD 3 <;> cases write.fields.getLsbD 0 <;> decide

theorem mode_eq_of_merge
    (h : Psr.ofWord? (merge (write.currentMask c.mode) value c.cpsr.toWord) = some psr)
    (hw : write.fields.getLsbD 0 = true → c.mode = .user) : psr.mode = c.mode := by
  have hheld : (write.fields.getLsbD 0 && c.mode.isPrivileged) = false := by
    cases hf : write.fields.getLsbD 0 with
    | false => rfl
    | true => rw [hw hf]; rfl
  apply Psr.mode_eq_of_bits
  intro i hi
  rw [Psr.toWord_of_ofWord? h, getLsbD_merge, getLsbD_currentMask_mode write c.mode hi, hheld]
  rfl

end StatusWrite

/-! ### Changes of the instruction set and of the mode -/

/-- The effects that can change the instruction set. -/
def SelectsSet (allows : Effect → Prop) : Prop :=
  allows .exchange ∨ allows .restore ∨ allows .call

/-- The effects that can change the mode, in a given current mode. -/
def SelectsMode (allows : Effect → Prop) (mode : Mode) : Prop :=
  allows .restore ∨ allows .call ∨
    ∃ write : StatusWrite, allows (.writeStatus write) ∧ write.fields.getLsbD 0 = true ∧
      mode ≠ .user

theorem Redirected.instructionSet_eq (h : Redirected allows c d) (hn : ¬SelectsSet allows) :
    d.instructionSet = c.instructionSet := by
  cases h with
  | within h => exact h.instructionSet_eq
  | exchanged ha h set => exact absurd (.inl ha) hn
  | restored ha h hs => exact absurd (.inr (.inl ha)) hn
  | called ha => exact absurd (.inr (.inr ha)) hn

theorem Redirected.mode_eq (h : Redirected allows c d) (hn : ¬SelectsMode allows c.mode) :
    d.mode = c.mode := by
  cases h with
  | within h => exact h.mode_eq
  | exchanged ha h set => exact h.mode_eq
  | restored ha h hs => exact absurd (.inl ha) hn
  | called ha => exact absurd (.inr (.inl ha)) hn

/-- Only with a branch can an instruction leave its instruction set. -/
theorem InstructionEnd.instructionSet_eq (h : InstructionEnd allows c events flow d)
    (hn : flow = .jump → ¬SelectsSet allows) : d.instructionSet = c.instructionSet := by
  cases h with
  | next hq h => exact h.instructionSet_eq
  | status hq ha hp => exact StatusWrite.instructionSet_eq_of_merge hp
  | saved hq ha value => rfl
  | jump hq h address => exact h.instructionSet_eq (hn rfl)

theorem InstructionEnd.mode_eq (h : InstructionEnd allows c events flow d)
    (hn : ¬SelectsMode allows c.mode) : d.mode = c.mode := by
  cases h with
  | next hq h => exact h.mode_eq
  | status hq ha hp =>
    refine StatusWrite.mode_eq_of_merge hp fun hf => ?_
    by_contra hu
    exact hn (.inr (.inr ⟨_, ha, hf, hu⟩))
  | saved hq ha value => rfl
  | jump hq h address => exact h.mode_eq hn

/-- An opcode that changes the instruction set has an effect that can, and announces a branch to
where it goes on, in the new instruction set. -/
theorem OpcodeEnd.of_instructionSet_ne (h : OpcodeEnd opcode c events d)
    (hne : d.instructionSet ≠ c.instructionSet) :
    SelectsSet (opcode.Allows c.cpsr.flags) ∧
      BusEvent.branch d.fetchAddress d.instructionSet ∈ events := by
  cases h with
  | skipped h => exact absurd rfl hne
  | next h => exact absurd (h.instructionSet_eq fun hj => nomatch hj) hne
  | jump h =>
    cases h with
    | @jump before e hq h address =>
      -- only an exchange leads to another set, and it notices its branch
      refine ⟨by_contra fun hn => hne (h.instructionSet_eq hn), ?_⟩
      have hfetch : (e.branched address).fetchAddress = e.instructionSet.align address :=
        BitVec.add_sub_cancel _ _
      rw [hfetch]
      exact List.mem_cons_of_mem _ (List.mem_append_right _ List.mem_cons_self)

theorem OpcodeEnd.mode_eq (h : OpcodeEnd opcode c events d)
    (hn : ¬SelectsMode (opcode.Allows c.cpsr.flags) c.mode) : d.mode = c.mode := by
  cases h with
  | skipped h => rfl
  | next h => exact h.mode_eq hn
  | jump h => exact h.mode_eq hn

/-- A status write keeps the instruction set, whether or not the status it makes is valid. -/
theorem StatusWrite.instructionSet_execute (write : StatusWrite) (c : Cpu) {σ : Type} (bus : Bus σ)
    (state : σ) :
    (write.execute.runOn bus c state).value.2.instructionSet = c.instructionSet := by
  cases hr : (write.execute.runOn bus c state).value.1 with
  | error fault => exact congrArg Psr.instructionSet (write.stops_execute.run hr).keeps.1.2.1
  | ok flow =>
    have hend := (write.ends_execute .saveStatus .writeStatus :
      Ends c write.execute (InstructionEnd (ArmInstruction.writeStatus write).Allows c)).run hr
    refine hend.instructionSet_eq fun _ hs => ?_
    rcases hs with h | h | h
    all_goals nomatch h

/-- **Only the listed instructions change the instruction set or the mode.**  A step changes the
instruction set only by an exchange, the restoration of a saved status or a software interrupt, and
announces a branch to where it goes on, in the new instruction set.  It changes the mode only by the
latter two, or by a write of the control field of the current status in another mode than User.  A
step that fails changes neither, and no status write, whatever its source, its fields and the mode,
changes the instruction set. -/
theorem state_changes_only_by (step : ProgramStep) (c : Cpu) {σ : Type} (bus : Bus σ)
    (state : σ) :
    let run := step.perform.runOn bus c state
    let ended := run.value.2
    (ended.instructionSet ≠ c.instructionSet → SelectsSet (step.Allows bus c state) ∧
      BusEvent.branch ended.fetchAddress ended.instructionSet ∈ run.events) ∧
    (ended.mode ≠ c.mode → SelectsMode (step.Allows bus c state) c.mode) ∧
    (∀ fault, run.value.1 = .error fault →
      ended.instructionSet = c.instructionSet ∧ ended.mode = c.mode) ∧
    ∀ write : StatusWrite,
      (write.execute.runOn bus c state).value.2.instructionSet = c.instructionSet := by
  intro run ended
  -- a status write by itself, whatever the step
  have hmsr (write : StatusWrite) :
      (write.execute.runOn bus c state).value.2.instructionSet = c.instructionSet :=
    write.instructionSet_execute c bus state
  rcases step.perform_cases c bus state with ⟨fault, hr⟩ | ⟨opcode, before, events, ho, he, hend⟩
  · have hended : ended = c := congrArg Prod.snd hr
    rw [hended]
    exact ⟨fun h => absurd rfl h, fun h => absurd rfl h, fun _ _ => ⟨rfl, rfl⟩, hmsr⟩
  · have himp (effect : Effect) (h : opcode.Allows c.cpsr.flags effect) :
        step.Allows bus c state effect := ⟨opcode, ho, h⟩
    rcases hend with ⟨fault, hr, -, hstop⟩ | ⟨hr, hend⟩
    -- a fault leaves the whole current status
    · have hcpsr : ended.cpsr = c.cpsr := hstop.keeps.1.2.1
      have hset : ended.instructionSet = c.instructionSet := congrArg Psr.instructionSet hcpsr
      have hmode : ended.mode = c.mode := congrArg Psr.mode hcpsr
      exact ⟨fun h => absurd hset h, fun h => absurd hmode h, fun _ _ => ⟨hset, hmode⟩, hmsr⟩
    · refine ⟨fun h => ?_, fun h => ?_, fun fault hf => ?_, hmsr⟩
      · obtain ⟨hs, hbranch⟩ := hend.of_instructionSet_ne h
        -- the branch is the last thing the opcode does
        refine ⟨hs.imp (himp _) (Or.imp (himp _) (himp _)), ?_⟩
        rw [he]
        exact List.mem_append_right _ hbranch
      · have hs : SelectsMode (opcode.Allows c.cpsr.flags) c.mode :=
          by_contra fun hn => h (hend.mode_eq hn)
        exact hs.imp (himp _) (Or.imp (himp _) fun ⟨write, ha, hw⟩ => ⟨write, himp _ ha, hw⟩)
      · rw [hr] at hf
        nomatch hf

/-- A software interrupt from a Thumb program changes both, and a return without a saved status that
is valid changes neither. -/
theorem state_changes_only_by_softwareInterrupt :
    let call : ProgramStep := .given (.thumb 0xDF00)
    let back : ProgramStep := .given (.arm 0xE8FD8000)
    let memory : Memory := { regions := [] }
    let called := call.perform.runOn Memory.bus thumbProgram memory
    SelectsSet (call.Allows Memory.bus thumbProgram memory) ∧
      SelectsMode (call.Allows Memory.bus thumbProgram memory) .user ∧
      BusEvent.branch 0x08 .arm ∈ called.events ∧
      (back.perform.runOn Memory.bus .reset memory).value.2.mode = .supervisor := by
  intro call back memory called
  have h := state_changes_only_by call thumbProgram Memory.bus memory
  have hback := state_changes_only_by back .reset Memory.bus memory
  have hset : called.value.2.instructionSet = .arm := rfl
  -- the vector lies at an instruction boundary
  have hfetch : called.value.2.fetchAddress = 0x08 := by
    change InstructionSet.arm.align 0x08 + InstructionSet.arm.lookahead -
      InstructionSet.arm.lookahead = _
    decide
  have hmode : called.value.2.mode = .supervisor := rfl
  obtain ⟨hselects, hbranch⟩ := h.1 (by rw [hset]; decide)
  refine ⟨hselects, h.2.1 (by rw [hmode]; decide), ?_, ?_⟩
  · have hevent : BusEvent.branch called.value.2.fetchAddress called.value.2.instructionSet ∈
        called.events := hbranch
    rw [hfetch, hset] at hevent
    exact hevent
  · exact (hback.2.2.1 (.invalidMode 0) rfl).2

end Armv4t

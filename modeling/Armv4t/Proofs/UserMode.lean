import Armv4t.Proofs.ExceptionReturn
import Armv4t.Proofs.Program

/-!
# What a program in User mode can do

Main statements:

* a program in User mode can neither leave the mode nor change a privileged bit of the status or a
  saved status (`userMode_confined`), but by a software interrupt, which leads to its handler and
  nowhere else;
* it cannot see the state that belongs to other modes (`userMode_sees_own_view`): two processors in
  User mode with the same registers and the same status run alike, whatever is stored in them.

Both are relations that the instructions keep: the first, of a processor with itself as long as it
is confined (`Cpu.Confined`), the second, of two processors with the same view (`Cpu.SameUserView`).
-/

namespace Armv4t

/-! ### Bits of a status -/

namespace Psr

variable (psr : Psr) {i : Nat}

theorem getLsbD_toWord_withFlags (flags : Flags) (h : i < 28) :
    { psr with flags := flags }.toWord.getLsbD i = psr.toWord.getLsbD i := by
  have hreserved : i - 5 - 1 - 1 - 1 < 20 := by omega
  simp only [toWord, BitVec.getLsbD_append, hreserved, if_true]

theorem getLsbD_toWord_withInstructionSet (set : InstructionSet) (h : i ≠ 5) :
    { psr with instructionSet := set }.toWord.getLsbD i = psr.toWord.getLsbD i := by
  simp only [toWord, BitVec.getLsbD_append]
  rcases (by omega : i < 5 ∨ ¬i < 5 ∧ ¬i - 5 < 1) with hmode | ⟨habove, hset⟩
  · simp only [hmode, if_true]
  · simp only [habove, hset, if_false]

theorem getLsbD_toWord_instructionSet :
    psr.toWord.getLsbD 5 = (psr.instructionSet == .thumb) := by
  simp only [toWord, BitVec.getLsbD_append]
  simp

theorem getLsbD_toWord_fiqDisable : psr.toWord.getLsbD 6 = psr.fiqDisable := by
  simp only [toWord, BitVec.getLsbD_append]
  simp

theorem getLsbD_toWord_irqDisable : psr.toWord.getLsbD 7 = psr.irqDisable := by
  simp only [toWord, BitVec.getLsbD_append]
  simp

theorem getLsbD_toWord_reserved (h : 8 ≤ i) (h' : i < 28) :
    psr.toWord.getLsbD i = psr.reserved.getLsbD (i - 8) := by
  have hmode : ¬i < 5 := by omega
  have hset : ¬i - 5 < 1 := by omega
  have hfiq : ¬i - 5 - 1 < 1 := by omega
  have hirq : ¬i - 5 - 1 - 1 < 1 := by omega
  have hreserved : i - 5 - 1 - 1 - 1 < 20 := by omega
  simp only [toWord, BitVec.getLsbD_append, hmode, hset, hfiq, hirq, hreserved, if_false, if_true]
  rfl

/-- The bits above the control field hold the flags and the bits without a function. -/
theorem getLsbD_toWord_congr {other : Psr} (hf : psr.flags = other.flags)
    (hr : psr.reserved = other.reserved) (h : 8 ≤ i) :
    psr.toWord.getLsbD i = other.toWord.getLsbD i := by
  have hmode : ¬i < 5 := by omega
  have hset : ¬i - 5 < 1 := by omega
  have hfiq : ¬i - 5 - 1 < 1 := by omega
  have hirq : ¬i - 5 - 1 - 1 < 1 := by omega
  simp only [toWord, BitVec.getLsbD_append, hf, hr, hmode, hset, hfiq, hirq, if_false]

/-- The mode is what the five lowest bits say. -/
theorem mode_eq_of_bits {other : Psr}
    (h : ∀ i < 5, psr.toWord.getLsbD i = other.toWord.getLsbD i) : psr.mode = other.mode := by
  apply Mode.bits_injective
  rw [← modeField_toWord, ← modeField_toWord]
  ext i hi
  simp only [modeField, BitVec.getElem_extractLsb', Nat.zero_add]
  exact h i hi

end Psr

namespace StatusWrite

/-- Merging takes the bits under the mask from one word and the others from the other. -/
theorem getLsbD_merge (mask new old : Word) (i : Nat) :
    (merge mask new old).getLsbD i =
      if mask.getLsbD i then new.getLsbD i else old.getLsbD i := by
  simp only [merge, BitVec.getLsbD_or, BitVec.getLsbD_and, BitVec.getLsbD_not]
  by_cases hi : i < 32
  · cases mask.getLsbD i <;> simp [hi]
  · have hword (word : Word) : word.getLsbD i = false := word.getLsbD_of_ge i (by omega)
    simp [hword]

/-- A status write in User mode leaves the bits below the flags as they are. -/
theorem getLsbD_merge_user (write : StatusWrite) (new old : Word) {i : Nat} (h : i < 24) :
    (merge (write.currentMask .user) new old).getLsbD i = old.getLsbD i := by
  have hflags : ∀ i < 24, flagMask.getLsbD i = false := by decide
  have hmask : (write.currentMask .user).getLsbD i = false := by
    simp only [currentMask, if_true, BitVec.getLsbD_and, hflags i h, Bool.and_false,
      Bool.false_and]
  rw [getLsbD_merge, hmask]
  rfl

end StatusWrite

/-! ### Confinement -/

namespace Cpu

/-- User mode has no saved status to restore. -/
theorem spsr?_of_user {cpu : Cpu} (h : cpu.mode = .user) : cpu.spsr? = none := by
  have hb : cpu.mode.bank = .user := by rw [h]; rfl
  unfold spsr?
  rw [if_pos hb]

/-- User mode has no saved status to write. -/
theorem withSpsr_of_user {cpu : Cpu} (h : cpu.mode = .user) (value : Word) :
    cpu.withSpsr value = cpu := by
  have hb : cpu.mode.bank = .user := by rw [h]; rfl
  unfold withSpsr
  rw [if_pos hb]

/-- A processor in User mode that holds the privileged part of the status, and the saved statuses,
as a processor at the start did. -/
structure Confined (start cpu : Cpu) : Prop where
  mode : cpu.mode = .user
  getLsbD_cpsr {i : Nat} (h : i < 24) (hset : i ≠ 5) :
    cpu.cpsr.toWord.getLsbD i = start.cpsr.toWord.getLsbD i
  spsrs : cpu.spsrs = start.spsrs

namespace Confined

variable {start c : Cpu}

/-- Changes of registers alone keep a processor confined. -/
theorem of_eq {d : Cpu} (h : start.Confined c) (hc : d.cpsr = c.cpsr) (hs : d.spsrs = c.spsrs) :
    start.Confined d := by
  refine ⟨?_, fun hi hset => ?_, ?_⟩
  · rw [Cpu.mode, hc]
    exact h.mode
  · rw [hc]
    exact h.getLsbD_cpsr hi hset
  · rw [hs, h.spsrs]

theorem withFlags (h : start.Confined c) (flags : Flags) :
    start.Confined (c.withFlags flags) := by
  refine ⟨h.mode, fun {i} hi hset => ?_, h.spsrs⟩
  exact (Psr.getLsbD_toWord_withFlags c.cpsr flags (by omega)).trans (h.getLsbD_cpsr hi hset)

theorem withInstructionSet (h : start.Confined c) (set : InstructionSet) :
    start.Confined (c.withInstructionSet set) := by
  refine ⟨h.mode, fun {i} hi hset => ?_, h.spsrs⟩
  exact (Psr.getLsbD_toWord_withInstructionSet c.cpsr set hset).trans (h.getLsbD_cpsr hi hset)

theorem withSpsr (h : start.Confined c) (value : Word) : start.Confined (c.withSpsr value) := by
  rw [withSpsr_of_user h.mode]
  exact h

/-- What a status write makes of the status has the same privileged bits, the mode among them. -/
theorem withMerged (h : start.Confined c) (write : StatusWrite) (value : Word) {psr : Psr}
    (hp : Psr.ofWord? (StatusWrite.merge (write.currentMask c.mode) value c.cpsr.toWord) =
      some psr) : start.Confined (c.withPsr psr) := by
  have hbits {i : Nat} (hi : i < 24) : psr.toWord.getLsbD i = c.cpsr.toWord.getLsbD i := by
    rw [Psr.toWord_of_ofWord? hp, h.mode, StatusWrite.getLsbD_merge_user _ _ _ hi]
  have hmode : psr.mode = c.mode := Psr.mode_eq_of_bits psr fun i hi => hbits (by omega)
  refine ⟨hmode.trans h.mode, fun hi hset => ?_, ?_⟩
  · exact (hbits hi).trans (h.getLsbD_cpsr hi hset)
  · rw [spsrs_withPsr, h.spsrs]

end Confined

/-- Every instruction but a software interrupt keeps a confined processor confined. -/
theorem statusRelation_confined (start : Cpu) :
    StatusRelation fun c d => c = d ∧ start.Confined c where
  read h register := by rw [h.1]
  flags h := by rw [h.1]
  cpsr h := by rw [h.1]
  spsr? h := by rw [h.1]
  readUser h register := by rw [h.1]
  write := by
    rintro c _ ⟨rfl, h⟩ register hr value
    exact ⟨rfl, h.of_eq (cpsr_write _ _ _) (spsrs_write _ _ _)⟩
  withFlags := by
    rintro c _ ⟨rfl, h⟩ flags
    exact ⟨rfl, h.withFlags flags⟩
  withPc := by
    rintro c _ ⟨rfl, h⟩ pc
    exact ⟨rfl, h.of_eq rfl rfl⟩
  withInstructionSet := by
    rintro c _ ⟨rfl, h⟩ set
    exact ⟨rfl, h.withInstructionSet set⟩
  withSpsr := by
    rintro c _ ⟨rfl, h⟩ value
    exact ⟨rfl, h.withSpsr value⟩
  writeUser := by
    rintro c _ ⟨rfl, h⟩ register hr value
    exact ⟨rfl, h.of_eq (cpsr_writeIn _ _ _ _) (spsrs_writeIn _ _ _ _)⟩
  withSaved := by
    -- in User mode there is no saved status, so that nothing is restored from one
    rintro c _ ⟨rfl, h⟩ word hw
    rw [spsr?_of_user h.mode] at hw
    nomatch hw
  withMerged := by
    rintro c _ ⟨rfl, h⟩ write value psr hp
    exact ⟨rfl, h.withMerged write value hp⟩

end Cpu

/-! ### Software interrupts -/

variable {c : Cpu}

theorem Opcode.ensures_supervisorCall {opcode : Opcode}
    (h : opcode.CallsSupervisor c.cpsr.flags) :
    StepM.Ensures c opcode.execute fun result d =>
      result = .ok () ∧ d = c.entered .softwareInterrupt := by
  -- the instruction is the same in both sets
  let raised : StepM Flow := do
    CpuM.raise .softwareInterrupt
    return .jump
  have hraised : StepM.Ensures c raised fun result d =>
      result = .ok .jump ∧ d = c.entered .softwareInterrupt := by
    refine StepM.ensures_lift_bind (CpuM.ensures_raise .softwareInterrupt) ?_
    rintro _ _ rfl
    exact StepM.ensures_pure ⟨rfl, rfl⟩
  -- after the jump the program counter stays where the entry has put it
  have hproceed (set : InstructionSet) :
      StepM.Ensures c (do proceed set (← raised) : StepM Unit) fun result d =>
        result = .ok () ∧ d = c.entered .softwareInterrupt :=
    StepM.ensures_bind_ok hraised ⟨rfl, rfl⟩
  cases opcode with
  | arm word =>
    obtain ⟨hc, comment, hi⟩ := h
    change ((executeArm word).run.run c).Always _
    rw [run_executeArm hc hi]
    exact fun _ => hproceed .arm
  | thumb halfword =>
    obtain ⟨-, comment, hi⟩ := h
    change ((executeThumb halfword).run.run c).Always _
    rw [run_executeThumb hi]
    exact fun _ => hproceed .thumb

/-- A step that raises a software interrupt ends at the start of its handler. -/
theorem ProgramStep.value_supervisorCall {σ : Type} {bus : Bus σ} {s : σ} {step : ProgramStep}
    (h : step.CallsSupervisor bus c s) :
    (step.perform.runOn bus c s).value = (.ok (), c.entered .softwareInterrupt) := by
  obtain ⟨opcode, ho, hcall⟩ := h
  have hend := (Opcode.ensures_supervisorCall hcall).run bus (step.opcode.runOn bus c s).state
  rw [perform_eq, StepM.runOn_bind_of_ok (Prod.ext ho step.value_opcode)]
  exact Prod.ext hend.1 hend.2

/-- **User mode cannot raise its privilege.**  As long as a program in User mode raises no software
interrupt, every step leaves it in User mode, with the same bits of the status below bit 24 but for
the instruction set, and with the same saved statuses.  A software interrupt leads to the start of
its handler in Supervisor mode, which has the old status and the address of the next instruction. -/
theorem userMode_confined (c : Cpu) (hu : c.mode = .user) {σ : Type} (bus : Bus σ) (s : σ) :
    (∀ steps, WithoutSupervisorCall bus steps c s → ∀ taken, taken <+: steps →
      let ended := (runSteps bus taken c s).value.2
      ended.mode = .user ∧
        (∀ i < 24, i ≠ 5 → ended.cpsr.toWord.getLsbD i = c.cpsr.toWord.getLsbD i) ∧
        ended.spsrs = c.spsrs) ∧
    ∀ (step : ProgramStep) (opcode : Opcode),
      (step.opcode.runOn bus c s).value.1 = .ok opcode → opcode.CallsSupervisor c.cpsr.flags →
      opcode.instructionSet = c.instructionSet →
        let run := step.perform.runOn bus c s
        let ended := run.value.2
        run.value.1 = .ok () ∧ ended.mode = .supervisor ∧ ended.instructionSet = .arm ∧
          ended.fetchAddress = 0x08 ∧ ended.cpsr.irqDisable = true ∧
          ended.cpsr.fiqDisable = c.cpsr.fiqDisable ∧
          ended.spsrs.get .supervisor = c.cpsr.toWord ∧
          ended.readIn .supervisor .lr = c.fetchAddress + opcode.instructionSet.size := by
  refine ⟨fun steps hw taken ht => ?_, fun step opcode ho hcall hset => ?_⟩
  · -- the run beside itself
    have hstart : c.Confined c := ⟨hu, fun _ _ => rfl, rfl⟩
    have hrun := runsAlike_runSteps (Cpu.statusRelation_confined c) (Bus.alike_self bus)
      ⟨rfl, hstart⟩ rfl (hw.of_isPrefix ht)
    have hended := hrun.value.2.2
    exact ⟨hended.mode, fun i hi => hended.getLsbD_cpsr hi, hended.spsrs⟩
  -- the entry is that of the exception, which the processor has entered
  · intro run ended
    have hvalue : run.value = (.ok (), c.entered .softwareInterrupt) :=
      ProgramStep.value_supervisorCall ⟨opcode, ho, hcall⟩
    have hended : ended = c.entered .softwareInterrupt := congrArg Prod.snd hvalue
    rw [hended]
    refine ⟨congrArg Prod.fst hvalue, rfl, rfl, ?_, rfl, rfl, ?_, ?_⟩
    · change InstructionSet.arm.align 0x08 + InstructionSet.arm.lookahead -
        InstructionSet.arm.lookahead = _
      decide
    · exact (Cpu.get_spsrs_entered c .softwareInterrupt .supervisor).trans (if_pos rfl)
    · rw [Cpu.readIn_entered _ _ _ (by decide), if_pos ⟨rfl, rfl⟩, Cpu.returnAddress, hset]
      rfl

/-- A program in User mode tries to write the control field and to return like a handler; then it
raises a software interrupt. -/
theorem userMode_confined_thumbProgram :
    let steps : List ProgramStep := [.given (.arm 0xE321F0D3), .given (.arm 0xE1B0F00E)]
    let call : ProgramStep := .given (.thumb 0xDF00)
    let memory : Memory := { regions := [] }
    let ended := (runSteps Memory.bus steps thumbProgram memory).value.2
    let called := (call.perform.runOn Memory.bus thumbProgram memory).value
    ended.mode = .user ∧ ended.spsrs = thumbProgram.spsrs ∧ called.1 = .ok () ∧
      called.2.mode = .supervisor ∧ called.2.fetchAddress = 0x08 ∧
      called.2.readIn .supervisor .lr = 0x8004 := by
  intro steps call memory ended called
  have h := userMode_confined thumbProgram (by decide) Memory.bus memory
  -- neither a control field nor a restored status calls the supervisor
  have hw : WithoutSupervisorCall Memory.bus steps thumbProgram memory :=
    ⟨ProgramStep.not_callsSupervisor_given (by decide),
      ProgramStep.not_callsSupervisor_given (by decide), trivial⟩
  have hended := h.1 steps hw steps (List.prefix_refl _)
  have hcalled := h.2 call (.thumb 0xDF00) rfl ⟨rfl, by decide⟩ rfl
  exact ⟨hended.1, hended.2.2, hcalled.1, hcalled.2.1, hcalled.2.2.2.1,
    hcalled.2.2.2.2.2.2.2.trans (by decide)⟩

/-! ### What is visible in User mode -/

namespace Cpu

/-- Two processors in User mode with the same status and the same registers of that mode. -/
structure SameUserView (c d : Cpu) : Prop where
  mode : c.mode = .user
  cpsr : c.cpsr = d.cpsr
  readIn (register : Register) : c.readIn .user register = d.readIn .user register

namespace SameUserView

variable {c d : Cpu}

theorem mode_right (h : c.SameUserView d) : d.mode = .user :=
  (congrArg Psr.mode h.cpsr).symm.trans h.mode

/-- The registers of the current mode are those of User mode. -/
theorem read (h : c.SameUserView d) (register : Register) :
    c.read register = d.read register := by
  rw [← readIn_mode, ← readIn_mode, h.mode, h.mode_right, h.readIn]

theorem of_read (hm : c.mode = .user) (hc : c.cpsr = d.cpsr)
    (hr : ∀ register, c.read register = d.read register) : c.SameUserView d := by
  have hd : d.mode = .user := (congrArg Psr.mode hc).symm.trans hm
  refine ⟨hm, hc, fun register => ?_⟩
  rw [← hm, readIn_mode, hm, ← hd, readIn_mode, hr]

theorem write (h : c.SameUserView d) {register : Register} (hr : register ≠ .pc) (value : Word) :
    (c.write register value).SameUserView (d.write register value) := by
  refine ⟨?_, ?_, fun other => ?_⟩
  · rw [mode_write, h.mode]
  · rw [cpsr_write, cpsr_write, h.cpsr]
  · rw [readIn_write c value hr, readIn_write d value hr, h.mode, h.mode_right, h.readIn]

theorem withFlags (h : c.SameUserView d) (flags : Flags) :
    (c.withFlags flags).SameUserView (d.withFlags flags) := by
  refine ⟨h.mode, ?_, fun register => ?_⟩
  · unfold Cpu.withFlags
    rw [h.cpsr]
  · rw [readIn_withFlags, readIn_withFlags, h.readIn]

theorem withPc (h : c.SameUserView d) (pc : Word) :
    { c with pc := pc }.SameUserView { d with pc := pc } := by
  refine ⟨h.mode, h.cpsr, fun register => ?_⟩
  by_cases hr : register = .pc
  · subst hr
    rfl
  · rw [readIn_withPc c pc .user hr, readIn_withPc d pc .user hr, h.readIn]

theorem withInstructionSet (h : c.SameUserView d) (set : InstructionSet) :
    (c.withInstructionSet set).SameUserView (d.withInstructionSet set) := by
  refine ⟨h.mode, ?_, fun register => ?_⟩
  · unfold Cpu.withInstructionSet
    rw [h.cpsr]
  · rw [readIn_withInstructionSet, readIn_withInstructionSet, h.readIn]

/-- A write through User mode is a write to the registers in view. -/
theorem writeUser (h : c.SameUserView d) {register : Register} (hr : register ≠ .pc)
    (value : Word) :
    (c.writeIn .user register value).SameUserView (d.writeIn .user register value) := by
  have hw := h.write hr value
  rw [write_eq_writeIn, write_eq_writeIn, h.mode, h.mode_right] at hw
  exact hw

/-- A status that stays in User mode exchanges no registers. -/
theorem withPsr (h : c.SameUserView d) {psr : Psr} (hp : psr.mode = .user) :
    (c.withPsr psr).SameUserView (d.withPsr psr) := by
  refine ⟨hp, rfl, fun register => ?_⟩
  rw [readIn_withPsr, readIn_withPsr, h.readIn]

end SameUserView

/-- No instruction but a software interrupt sees more than the view of User mode. -/
theorem statusRelation_sameUserView : StatusRelation SameUserView where
  read h register := h.read register
  flags h := congrArg Psr.flags h.cpsr
  write h := h.write
  withFlags h := h.withFlags
  cpsr h := h.cpsr
  -- in User mode neither processor has a saved status
  spsr? h := by rw [spsr?_of_user h.mode, spsr?_of_user h.mode_right]
  readUser h register := h.readIn register
  withPc h := h.withPc
  withInstructionSet h := h.withInstructionSet
  withSpsr h value := by
    rw [withSpsr_of_user h.mode, withSpsr_of_user h.mode_right]
    exact h
  writeUser h := h.writeUser
  withSaved h _ hw := by
    rw [spsr?_of_user h.mode] at hw
    nomatch hw
  withMerged {c} d h write value psr hp := by
    -- what a status write may change in User mode are flags, which are the same on both sides
    have hconfined : c.Confined (c.withPsr psr) :=
      Confined.withMerged ⟨h.mode, fun _ _ => rfl, rfl⟩ write value hp
    exact h.withPsr hconfined.mode

end Cpu

/-- **User mode cannot read privileged state.**  Take two processors in User mode with the same
status and the same registers, whatever the registers of the other modes and the saved statuses, and
two buses that answer alike.  As long as the program raises no software interrupt, after every step
the two runs have given the same results and faults and made the same events, and the processors
have the same status and the same registers. -/
theorem userMode_sees_own_view {σ τ : Type} {bus : Bus σ} {bus' : Bus τ} {states : σ → τ → Prop}
    (alike : bus.Alike bus' states) {c d : Cpu} (hu : c.mode = .user) (hc : c.cpsr = d.cpsr)
    (hr : ∀ register, c.read register = d.read register) {s : σ} {t : τ} (hs : states s t)
    (steps : List ProgramStep) (hw : WithoutSupervisorCall bus steps c s) :
    ∀ taken, taken <+: steps →
      RunsAlike (fun left right => left.cpsr = right.cpsr ∧
          ∀ register, left.read register = right.read register)
        states (runSteps bus taken c s) (runSteps bus' taken d t) := by
  intro taken ht
  have hrun := runsAlike_runSteps Cpu.statusRelation_sameUserView alike
    -- they agree on the view at the start, and every step keeps it
    (Cpu.SameUserView.of_read hu hc hr) hs (hw.of_isPrefix ht)
  refine ⟨⟨hrun.value.1, hrun.value.2.cpsr, hrun.value.2.read⟩, hrun.state, hrun.events, hrun.log⟩

/-- Two processors with different stored copies, through a read of the saved status, a store of the
registers of User mode and a return like that of a handler. -/
theorem userMode_sees_own_view_thumbProgram :
    let steps : List ProgramStep :=
      [.given (.arm 0xE14F0000), .given (.arm 0xE8C07FFF), .given (.arm 0xE1B0F00E)]
    let memory : Memory := { regions := [⟨0, 64, false⟩] }
    let other : Cpu :=
      { thumbProgram with
        commonHigh := .replicate 5 1
        fiqHigh := .replicate 5 2
        bankedStacks := .replicate ⟨3, 4⟩
        spsrs := .replicate 5 }
    RunsAlike (fun left right => left.cpsr = right.cpsr ∧
        ∀ register, left.read register = right.read register) Eq
      (runSteps Memory.bus steps thumbProgram memory)
      (runSteps Memory.bus steps other memory) := by
  intro steps memory other
  -- the two differ in stored copies only, none of which User mode sees
  have hr : ∀ register, thumbProgram.read register = other.read register := by
    intro register
    cases register <;> rfl
  have hw : WithoutSupervisorCall Memory.bus steps thumbProgram memory :=
    ⟨ProgramStep.not_callsSupervisor_given (by decide),
      ProgramStep.not_callsSupervisor_given (by decide),
      ProgramStep.not_callsSupervisor_given (by decide), trivial⟩
  have hc : thumbProgram.cpsr = other.cpsr := rfl
  have h := userMode_sees_own_view (Bus.alike_self Memory.bus) (c := thumbProgram) (d := other)
    rfl hc hr (rfl : memory = memory) steps hw
  exact h steps (List.prefix_refl _)

end Armv4t

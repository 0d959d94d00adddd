import Armv4t.Config
import Armv4t.Memory
import Armv4t.Proofs.Faults

/-!
# What a failed instruction leaves

Main statements:

* a refused instruction is atomic (`refused_changes_nothing`): whatever the opcode, a fault that is
  not the bus's leaves every state word as it was, and the bus has been asked for nothing;
* the state after a failed access is known exactly (`busFault_leaves_known_state`): only a block
  load may have changed registers, namely those whose words had arrived.

Both are read off the ways in which an opcode stops (`Opcode.stops_execute`).
-/

namespace Armv4t

open StepM

variable {c : Cpu} {opcode : Opcode} {events : List BusEvent} {fault : Fault} {d : Cpu}

/-! ### Refusals -/

namespace Fault

/-- A fault for which the processor itself is the cause, not the bus. -/
def IsRefusal : Fault → Prop
  | undefinedInstruction .. | unpredictableInstruction .. | invalidMode _ => True
  | bus _ => False

/-- The opcode and the address that a fault reports. -/
def place? : Fault → Option (Word × Word)
  | undefinedInstruction opcode address _ => some (opcode, address)
  | unpredictableInstruction opcode address _ => some (opcode, address)
  | invalidMode _ | bus _ => none

end Fault

/-- An instruction that is refused changes nothing, asks the bus for nothing and reports itself. -/
theorem OpcodeStop.of_isRefusal (h : OpcodeStop opcode c events fault d) (hf : fault.IsRefusal) :
    d = c ∧ (∀ event ∈ events, event.request.IsInternal) ∧
      ∀ place, fault.place? = some place → place = (opcode.toWord, c.fetchAddress) := by
  have hcycle : ∀ event ∈ [BusEvent.charge 1], event.request.IsInternal :=
    List.forall_mem_singleton.2 trivial
  -- a refusal is told before the bus is asked for more than cycles
  cases h with
  | undefined => exact ⟨rfl, hcycle, fun _ hp => (Option.some.inj hp).symm⟩
  | unpredictable reason => exact ⟨rfl, hcycle, fun _ hp => (Option.some.inj hp).symm⟩
  | executing h =>
    cases h with
    | invalidMode field h =>
      exact ⟨rfl, List.forall_mem_cons.2 ⟨trivial, h⟩, fun _ hp => nomatch hp⟩
    | access | store | load => exact hf.elim

namespace BlockTransfer

variable {transfer : BlockTransfer} {saved : Word}

/-- A block load that has to restore a status which names no mode stops at the outset. -/
theorem ensures_execute_of_restores (hm : transfer.mark = true) (hl : transfer.loadsPc = true)
    (hs : c.spsr? = some saved) (hw : Psr.ofWord? saved = none) :
    Ensures c transfer.execute fun result _ =>
      result = .error (.invalidMode (Psr.modeField saved)) := by
  obtain ⟨hload, hpc⟩ := Bool.and_eq_true_iff.1 hl
  -- the check of the saved status comes before the first access
  have hcheck : Ensures c checkRestore fun result _ =>
      result = .error (.invalidMode (Psr.modeField saved)) := by
    refine ensures_get_bind ?_
    rw [hs]
    dsimp only
    rw [hw]
    exact ensures_throw rfl
  unfold execute
  refine ensures_get_bind ?_
  rw [if_pos hload]
  unfold executeLoad
  rw [if_pos ⟨hm, hpc⟩]
  refine ensures_bind hcheck (fun _ _ h => nomatch h) fun fault d h => ?_
  rw [Except.error.inj h]

end BlockTransfer

theorem ArmInstruction.eq_of_block? {instruction : ArmInstruction} {transfer : BlockTransfer}
    (h : instruction.block? = some transfer) : instruction = .blockTransfer transfer := by
  cases instruction with
  | blockTransfer transfer' => rw [Option.some.inj h]
  | _ => nomatch h

/-- The block transfers of the Thumb instruction set are to and from the current registers. -/
theorem ThumbInstruction.mark_of_block? {instruction : ThumbInstruction}
    {transfer : BlockTransfer} (h : instruction.block? = some transfer) :
    transfer.mark = false := by
  cases instruction with
  | push | pop | multiple =>
    rw [← Option.some.inj h]
    rfl
  | _ => nomatch h

/-- An opcode that says such a block load is refused. -/
theorem Opcode.ensures_execute_of_restores {transfer : BlockTransfer} {saved : Word}
    (hc : opcode.holds c.cpsr.flags = true) (hb : opcode.block? = some transfer)
    (hm : transfer.mark = true) (hl : transfer.loadsPc = true) (hs : c.spsr? = some saved)
    (hw : Psr.ofWord? saved = none) :
    Ensures c opcode.execute fun result _ =>
      ∃ fault, result = .error fault ∧ fault.IsRefusal ∧
        (transfer.refusal? = none → fault = .invalidMode (Psr.modeField saved)) := by
  cases opcode with
  | arm word =>
    obtain ⟨instruction, hi, hb⟩ := Option.bind_eq_some_iff.1 hb
    -- only a block transfer lists registers
    obtain rfl := ArmInstruction.eq_of_block? hb
    have hholds : (ArmInstruction.condition word).holds c.cpsr.flags = true := hc
    have hexecute := BlockTransfer.ensures_execute_of_restores hm hl hs hw
    refine ensures_lift_bind (CpuM.ensures_charge 1) ?_
    rintro _ _ rfl
    refine ensures_get_bind ?_
    dsimp only
    rw [if_pos hholds, hi]
    refine ensures_lift_bind (CpuM.ensures_note _) ?_
    rintro _ _ rfl
    dsimp only [ArmInstruction.refusal?]
    cases transfer.refusal? with
    | some reason => exact ensures_throw ⟨_, rfl, trivial, fun hn => nomatch hn⟩
    | none =>
      refine ensures_bind hexecute (fun _ _ h => nomatch h) fun fault _ h => ?_
      cases h
      exact ⟨_, rfl, trivial, fun _ => rfl⟩
  | thumb halfword =>
    obtain ⟨instruction, hi, hb⟩ := Option.bind_eq_some_iff.1 hb
    -- no Thumb opcode has the mark
    rw [ThumbInstruction.mark_of_block? hb] at hm
    exact absurd hm (by decide)

/-- **Refused instructions are atomic.**  An opcode of either instruction set that stops for another
cause than the bus has changed no word of the state and has put no request but internal cycles, and
its fault reports the opcode and the fetch address.  A block load that has to restore a status which
names no mode is refused, and once an access has been made no status is found invalid any more. -/
theorem refused_changes_nothing (opcode : Opcode) (c : Cpu) {σ : Type} (bus : Bus σ) (state : σ) :
    let run := opcode.execute.runOn bus c state
    (∀ fault, run.value.1 = .error fault → fault.IsRefusal →
      run.value.2 = c ∧ (∀ event ∈ run.events, event.request.IsInternal) ∧
        ∀ place, fault.place? = some place → place = (opcode.toWord, c.fetchAddress)) ∧
    (∀ transfer saved, opcode.holds c.cpsr.flags = true → opcode.block? = some transfer →
      transfer.mark = true → transfer.loadsPc = true → c.spsr? = some saved →
      Psr.ofWord? saved = none →
        ∃ fault, run.value.1 = .error fault ∧
          (∀ event ∈ run.events, event.request.IsInternal) ∧
          (transfer.refusal? = none → fault = .invalidMode (Psr.modeField saved))) ∧
    ((∃ event ∈ run.events, ¬event.request.IsInternal) →
      ∀ field, run.value.1 ≠ .error (.invalidMode field)) := by
  intro run
  -- every refusal is one of these stops, which are exact
  have hrefused (fault : Fault) (hr : run.value.1 = .error fault) (hf : fault.IsRefusal) :
      run.value.2 = c ∧ (∀ event ∈ run.events, event.request.IsInternal) ∧
        ∀ place, fault.place? = some place → place = (opcode.toWord, c.fetchAddress) :=
    OpcodeStop.of_isRefusal (opcode.stops_execute.run hr) hf
  refine ⟨hrefused, ?_, ?_⟩
  · intro transfer saved hc hb hm hl hs hw
    have hrun := (Opcode.ensures_execute_of_restores hc hb hm hl hs hw).run bus state
    obtain ⟨fault, hr, hf, hfield⟩ := hrun
    exact ⟨fault, hr, (hrefused fault hr hf).2.1, hfield⟩
  · rintro ⟨event, he, hn⟩ field hr
    -- an access makes every later fault another one
    exact hn ((hrefused _ hr trivial).2.1 event he)

/-- A return from a handler is refused when no status has been saved. -/
theorem refused_changes_nothing_blankStatus :
    let run := (Opcode.arm 0xE8FD8000).execute.runOn Memory.bus .reset { regions := [] }
    run.value.1 = .error (.invalidMode 0) ∧ run.value.2 = .reset ∧
      ∀ event ∈ run.events, event.request.IsInternal := by
  intro run
  have h := refused_changes_nothing (.arm 0xE8FD8000) .reset Memory.bus { regions := [] }
  obtain ⟨fault, hr, hinternal, hfield⟩ := h.2.1
    { load := true, base := .sp, list := 0x8000, up := true, pre := false, writeBack := true,
      mark := true } 0 (by decide) (by decide) (by decide) (by decide) (by decide) (by decide)
  rw [hfield (by decide)] at hr
  exact ⟨hr, (h.1 _ hr trivial).1, hinternal⟩

/-! ### Failed accesses -/

/-- However an instruction stops, the program counter and the status registers are as they were,
and no branch has been made. -/
theorem InstructionStop.keeps {block? : Option BlockTransfer}
    (h : InstructionStop block? c events fault d) :
    (d.pc = c.pc ∧ d.cpsr = c.cpsr ∧ d.spsrs = c.spsrs) ∧
      ∀ event ∈ events, ¬event.request.IsBranch := by
  cases h with
  | invalidMode field h => exact ⟨⟨rfl, rfl, rfl⟩, fun event he => (h event he).not_isBranch⟩
  | access reason hb h => exact ⟨⟨rfl, rfl, rfl⟩, h⟩
  -- the failing store, behind those that have succeeded
  | store reason hb hl hk =>
    refine ⟨⟨rfl, rfl, rfl⟩, fun event he => ?_⟩
    rcases List.mem_append.1 he with he | he
    · exact not_isBranch_of_mem_wordWrites he
    · rw [List.mem_singleton.1 he]
      exact id
  -- the failing load, behind those whose words are in their registers
  | load reason hb hl hw =>
    refine ⟨⟨BlockTransfer.pc_loaded hw, BlockTransfer.cpsr_loaded _,
      BlockTransfer.spsrs_loaded _⟩, fun event he => ?_⟩
    rcases List.mem_append.1 he with he | he
    · exact not_isBranch_of_mem_wordReads he
    · rw [List.mem_singleton.1 he]
      exact id

/-- The same of the execution of an opcode. -/
theorem OpcodeStop.keeps (h : OpcodeStop opcode c events fault d) :
    (d.pc = c.pc ∧ d.cpsr = c.cpsr ∧ d.spsrs = c.spsrs) ∧
      ∀ event ∈ events, ¬event.request.IsBranch := by
  cases h with
  | undefined => exact ⟨⟨rfl, rfl, rfl⟩, List.forall_mem_singleton.2 id⟩
  | unpredictable reason => exact ⟨⟨rfl, rfl, rfl⟩, List.forall_mem_singleton.2 id⟩
  | executing h => exact ⟨h.keeps.1, List.forall_mem_cons.2 ⟨id, h.keeps.2⟩⟩

/-- An opcode whose access the bus fails has passed its cycle, and its instruction has stopped. -/
theorem OpcodeStop.of_bus {reason : BusFault} (h : OpcodeStop opcode c events (.bus reason) d) :
    ∃ rest, events = .charge 1 :: rest ∧ InstructionStop opcode.block? c rest (.bus reason) d := by
  cases h with
  | executing h => exact ⟨_, rfl, h⟩

namespace InstructionStop

variable {transfer : BlockTransfer} {reason : BusFault}

/-- A failed access of an instruction other than a block transfer leaves the processor as it was. -/
theorem of_bus_none (h : InstructionStop none c events (.bus reason) d) : d = c := by
  cases h with
  | access => rfl
  | store reason hb | load reason hb => nomatch hb

/-- A failed access of a block store leaves the processor as it was. -/
theorem of_bus_store (h : InstructionStop (some transfer) c events (.bus reason) d)
    (hl : transfer.load = false) :
    d = c ∧ ∃ k register, transfer.registers[k]? = some register ∧
      events = wordWrites (transfer.start (c.read transfer.base))
          ((transfer.registers.take k).map (transfer.storedValue c)) ++
        [failedWrite (transfer.start (c.read transfer.base)) k (transfer.storedValue c register)
          reason] := by
  cases h with
  -- a failure of a single access belongs to no block transfer
  | access reason hb => nomatch hb
  | store reason hb hl hk =>
    cases hb
    exact ⟨rfl, _, _, hk, rfl⟩
  | load reason hb hl' =>
    cases hb
    rw [hl] at hl'
    nomatch hl'

/-- A failed read of a block load leaves the words before it in their registers. -/
theorem of_bus_load (h : InstructionStop (some transfer) c events (.bus reason) d)
    (hl : transfer.load = true) :
    ∃ words : List Word, words.length < transfer.registers.length ∧
      events = wordReads (transfer.start (c.read transfer.base)) words ++
        [failedRead (transfer.start (c.read transfer.base)) words.length reason] ∧
      d = transfer.loaded words c := by
  cases h with
  | access reason hb => nomatch hb
  | store reason hb hl' =>
    cases hb
    rw [hl] at hl'
    nomatch hl'
  | load reason hb _ hw =>
    cases hb
    exact ⟨_, hw, rfl, rfl⟩

end InstructionStop

/-- **Bus failures leave a precisely known state.**  A step that stops because the bus fails an
access has not moved the program counter or changed a status register, and has made no branch.
Unless its opcode is a block load, the processor is as it was; a block store has written the words
of the listed registers before the failed one.  A block load has filled the listed registers before
the failed one, in the registers of User mode where it moves these, and no other register of any
mode has changed, the base included. -/
theorem busFault_leaves_known_state (step : ProgramStep) (c : Cpu) {σ : Type} (bus : Bus σ)
    (state : σ) {reason : BusFault}
    (h : (step.perform.runOn bus c state).value.1 = .error (.bus reason)) :
    let fetched := step.opcode.runOn bus c state
    let run := step.perform.runOn bus c state
    let ended := run.value.2
    (ended.pc = c.pc ∧ ended.cpsr = c.cpsr ∧ ended.spsrs = c.spsrs) ∧
    (∀ event ∈ run.events, ¬event.request.IsBranch) ∧
    (∀ fault, fetched.value.1 = .error fault → ended = c) ∧
    ∀ opcode, fetched.value.1 = .ok opcode →
      (opcode.block? = none → ended = c) ∧
      ∀ transfer, opcode.block? = some transfer →
        let start := transfer.start (c.read transfer.base)
        (transfer.load = false → ended = c ∧
          ∃ k register, transfer.registers[k]? = some register ∧
            run.events = fetched.events ++ .charge 1 ::
              (wordWrites start ((transfer.registers.take k).map (transfer.storedValue c)) ++
                [failedWrite start k (transfer.storedValue c register) reason])) ∧
        (transfer.load = true → ∃ words : List Word,
          words.length < transfer.registers.length ∧
          run.events = fetched.events ++ .charge 1 ::
            (wordReads start words ++ [failedRead start words.length reason]) ∧
          (∀ (i : Nat) register word mode, transfer.registers[i]? = some register →
            words[i]? = some word → Cpu.SameCell (transfer.bankMode c.mode) mode register →
              ended.readIn mode register = word) ∧
          ∀ mode register, (register ∈ transfer.registers.take words.length →
            ¬Cpu.SameCell (transfer.bankMode c.mode) mode register) →
              ended.readIn mode register = c.readIn mode register) := by
  intro fetched run ended
  have hfetch : ∀ event ∈ fetched.events, ¬event.request.IsBranch :=
    (BusProgram.Yields.run (step.yields_opcode : Yields c _ _) bus state).2
  rcases step.stop_cases h with ⟨hr, hc, he⟩ | ⟨opcode, events, hr, he, hstop⟩
  · -- the fetch has failed
    have hended : ended = c := hc
    refine ⟨?_, ?_, fun _ _ => hended, fun opcode ho => ?_⟩
    · rw [hended]
      exact ⟨rfl, rfl, rfl⟩
    · rw [he]
      exact hfetch
    · rw [hr] at ho
      nomatch ho
  -- the opcode has been fetched, and its execution has failed
  · obtain ⟨rest, rfl, hi⟩ := hstop.of_bus
    refine ⟨hstop.keeps.1, ?_, fun fault hf => ?_, fun opcode' ho => ?_⟩
    · rw [he]
      exact List.forall_mem_append.2 ⟨hfetch, hstop.keeps.2⟩
    · rw [hr] at hf
      nomatch hf
    · obtain rfl : opcode = opcode' := Except.ok.inj (hr.symm.trans ho)
      refine ⟨fun hb => ?_, fun transfer hb => ?_⟩
      · rw [hb] at hi
        exact hi.of_bus_none
      · rw [hb] at hi
        refine ⟨fun hl => ?_, fun hl => ?_⟩
        -- a store stops at a write and leaves the processor
        · obtain ⟨hc, k, register, hk, rfl⟩ := hi.of_bus_store hl
          exact ⟨hc, k, register, hk, he⟩
        -- a load stops at a read and leaves the registers of the words before it filled
        · obtain ⟨words, hw, rfl, hd⟩ := hi.of_bus_load hl
          have hended : ended = transfer.loaded words c := hd
          rw [hended]
          refine ⟨words, hw, he, ?_, fun mode register hn => ?_⟩
          · intro i register word mode hregister hword hs
            exact BlockTransfer.readIn_loaded hw hregister hword hs
          · exact BlockTransfer.readIn_loaded_of_notMem hw hn

/-- A bus that answers the reads below address 4 and fails every other access. -/
def shortBus : Bus Unit where
  answer
    | .read _ address, _ => (if address < 4 then .ok 0x11 else .error ⟨"out of range"⟩, ())
    | .write .., _ => (.error ⟨"out of range"⟩, ())
    | .charge _, _ => ((), ())
    | .branch .., _ => ((), ())

/-- The handler of a fast interrupt. -/
def fastHandler : Cpu :=
  .ofConfig { entryPoint := 0x1C, mode := .fiq, instructionSet := .arm }

/-- In the handler of a fast interrupt, the word for R9 of User mode does not arrive. -/
theorem busFault_leaves_known_state_userLoad :
    let step : ProgramStep := .given (.arm 0xE8D00300)
    let run := step.perform.runOn shortBus fastHandler ()
    run.value.1 = .error (.bus ⟨"out of range"⟩) ∧ run.value.2.pc = fastHandler.pc ∧
      run.value.2.readIn .user (.high 0) = 0x11 ∧ run.value.2.readIn .fiq (.high 0) = 0 ∧
      run.value.2.readIn .user (.high 1) = 0 := by
  intro step run
  have hr : run.value.1 = .error (.bus ⟨"out of range"⟩) := rfl
  have h := busFault_leaves_known_state step fastHandler shortBus () hr
  have hload := (h.2.2.2 (.arm 0xE8D00300) rfl).2
    { load := true, base := .low 0, list := 0x0300, up := true, pre := false, writeBack := false,
      mark := true } (by decide)
  obtain ⟨words, hlt, he, hword, hother⟩ := hload.2 rfl
  have hevents : run.events = [.charge 1, .read .word 0 (.ok 0x11),
      .read .word 4 (.error ⟨"out of range"⟩)] := rfl
  obtain rfl : words = [0x11] := by
    rw [hevents] at he
    -- one word was read, neither none nor two
    rcases words with _ | ⟨word, _ | ⟨_, tail⟩⟩
    · exact absurd (congrArg List.length he) (by decide)
    · have h1 := List.head_eq_of_cons_eq (List.tail_eq_of_cons_eq he)
      injection h1 with _ hanswer
      rw [Except.ok.inj hanswer]
    · have hfew : tail.length + 2 < 2 := hlt
      omega
  refine ⟨hr, h.1.1, hword 0 (.high 0) 0x11 .user (by decide) rfl (by decide), ?_, ?_⟩
  · exact hother .fiq (.high 0) fun _ => by decide
  · exact hother .user (.high 1) (by decide)

end Armv4t

import Armv4t.Proofs.Block
import Armv4t.Proofs.Execution
import Armv4t.Proofs.Opcode

/-!
# How an opcode stops

An opcode stops in one of few ways, and each is known to the last event and register: it is refused
before anything is done (`OpcodeStop.undefined`, `OpcodeStop.unpredictable`), a status to be
installed names no mode (`InstructionStop.invalidMode`), or the bus fails an access, which leaves
the processor as it was, save for the registers that a block load has filled by then
(`InstructionStop.load`).  `Opcode.stops_execute` says that there is no other way.
-/

namespace Armv4t

open StepM

variable {c : Cpu}

/-! ### Restoring the saved status -/

namespace Cpu

/-- The saved status, if the mode has one, can be installed. -/
def Restorable (cpu : Cpu) : Prop :=
  ∀ word, cpu.spsr? = some word → (Psr.ofWord? word).isSome = true

/-- Whether the saved status can be installed depends on the status registers only. -/
theorem Restorable.of_eq {cpu other : Cpu} (h : cpu.Restorable) (hc : other.cpsr = cpu.cpsr)
    (hs : other.spsrs = cpu.spsrs) : other.Restorable := by
  intro word hw
  have hspsr : other.spsr? = cpu.spsr? := by
    unfold spsr? mode
    rw [hc, hs]
  exact h word (hspsr ▸ hw)

end Cpu

namespace StepM

variable {post : List BusEvent → Fault → Cpu → Prop}

/-- Installing a status word stops only when it names no mode, and has then done nothing. -/
theorem stops_installPsrWord {word : Word}
    (h : Psr.ofWord? word = none → post [] (.invalidMode (Psr.modeField word)) c) :
    Stops c (installPsrWord word) post := by
  unfold installPsrWord
  cases hw : Psr.ofWord? word with
  | none => exact stops_throw (h hw)
  | some psr => exact stops_lift _

/-- Restoring the saved status stops only when it cannot be installed. -/
theorem stops_restorePsr (h : ¬c.Restorable → ∀ field, post [] (.invalidMode field) c) :
    Stops c restorePsr post := by
  unfold restorePsr
  refine stops_get_bind ?_
  cases hs : c.spsr? with
  | none => exact stops_lift _
  | some word =>
    refine stops_installPsrWord fun hw => h (fun hr => ?_) _
    exact absurd (hr word hs) (by rw [hw]; decide)

/-- After a check of the saved status, where one is made, the status can be restored. -/
theorem stops_checkRestore_when {α : Type} {p : Prop} [Decidable p] {f : Unit → StepM α}
    (h : ∀ field, post [] (.invalidMode field) c)
    (k : (p → c.Restorable) → Stops c (f ()) post) :
    Stops c (if p then checkRestore >>= f else f ()) post := by
  split_ifs with hp
  · unfold checkRestore
    rw [bind_assoc]
    refine stops_get_bind ?_
    cases hs : c.spsr? with
    -- without a saved status the check passes
    | none => exact k fun _ word hw => nomatch hs ▸ hw
    | some word =>
      dsimp only
      split_ifs with hw
      · exact stops_throw (h _)
      -- the saved status names a mode, which is what can be restored
      · refine k fun _ word' hw' => ?_
        obtain rfl : word = word' := Option.some.inj (hs ▸ hw')
        exact Option.isSome_iff_ne_none.2 fun hn => hw (by rw [hn]; rfl)
  · exact k fun hp' => absurd hp' hp

end StepM

/-! ### Instructions -/

/-- The ways in which an instruction stops, given the block transfer that it is, if it is one.  The
three of a failed access tell the processor that is left. -/
inductive InstructionStop (block? : Option BlockTransfer) (c : Cpu) :
    List BusEvent → Fault → Cpu → Prop
  /-- A status to be installed names no mode.  No access has been made. -/
  | invalidMode {events : List BusEvent} (field : BitVec 5)
      (h : ∀ event ∈ events, event.request.IsInternal) :
    InstructionStop block? c events (.invalidMode field) c
  /-- The bus has failed an access that belongs to no block. -/
  | access {events : List BusEvent} (reason : BusFault) (hb : block? = none)
      (h : ∀ event ∈ events, ¬event.request.IsBranch) :
    InstructionStop block? c events (.bus reason) c
  /-- The bus has failed the write for a listed register, after those for the registers before. -/
  | store {transfer : BlockTransfer} {k : Nat} {register : Register} (reason : BusFault)
      (hb : block? = some transfer) (hl : transfer.load = false)
      (hk : transfer.registers[k]? = some register) :
    InstructionStop block? c
      (wordWrites (transfer.start (c.read transfer.base))
          ((transfer.registers.take k).map (transfer.storedValue c)) ++
        [failedWrite (transfer.start (c.read transfer.base)) k (transfer.storedValue c register)
          reason])
      (.bus reason) c
  /-- The bus has failed the read for a listed register, and those before hold their words. -/
  | load {transfer : BlockTransfer} {words : List Word} (reason : BusFault)
      (hb : block? = some transfer) (hl : transfer.load = true)
      (hw : words.length < transfer.registers.length) :
    InstructionStop block? c
      (wordReads (transfer.start (c.read transfer.base)) words ++
        [failedRead (transfer.start (c.read transfer.base)) words.length reason])
      (.bus reason) (transfer.loaded words c)

namespace InstructionStop

/-- A failed access, alone among the events. -/
theorem access_read {width : Width} {address : Word} (reason : BusFault) :
    InstructionStop none c [.read width address (.error reason)] (.bus reason) c := by
  refine .access reason rfl fun event he => ?_
  rw [List.mem_singleton.1 he]
  exact id

@[inherit_doc access_read]
theorem access_write {width : Width} {address : Word} {value : BitVec width.bits}
    (reason : BusFault) :
    InstructionStop none c [.write width address value (.error reason)] (.bus reason) c := by
  refine .access reason rfl fun event he => ?_
  rw [List.mem_singleton.1 he]
  exact id

/-- A failed write after a read. -/
theorem access_read_write {width width' : Width} {address address' : Word}
    {value : BitVec width.bits} {value' : BitVec width'.bits} (reason : BusFault) :
    InstructionStop none c
      [.read width address (.ok value), .write width' address' value' (.error reason)]
      (.bus reason) c := by
  refine .access reason rfl fun event he => ?_
  rcases List.mem_cons.1 he with rfl | he
  · exact id
  · rw [List.mem_singleton.1 he]
    exact id

/-- Internal cycles before the stop of an instruction other than a block transfer. -/
theorem charged {events : List BusEvent} {fault : Fault} {d : Cpu} (cycles : Nat)
    (h : InstructionStop none c events fault d) :
    InstructionStop none c (.charge cycles :: events) fault d := by
  cases h with
  | invalidMode field h => exact .invalidMode field (List.forall_mem_cons.2 ⟨trivial, h⟩)
  | access reason hb h => exact .access reason hb (List.forall_mem_cons.2 ⟨id, h⟩)
  | store reason hb | load reason hb => nomatch hb

end InstructionStop

theorem LoadFormat.stops_load (format : LoadFormat) (address : Word) :
    Stops c (format.load address) (InstructionStop none c) := by
  unfold load
  cases format with
  | signedHalfword =>
    dsimp only
    split_ifs
    all_goals exact stops_read_bind InstructionStop.access_read fun _ => stops_pure _
  | _ => exact stops_read_bind InstructionStop.access_read fun _ => stops_pure _

theorem SingleTransfer.stops_executeAt (transfer : SingleTransfer) (base offset : Word) :
    Stops c (transfer.executeAt base offset) (InstructionStop none c) := by
  unfold executeAt
  dsimp only
  cases transfer.access with
  | load format =>
    -- once the word has been read nothing fails any more
    refine stops_bind_of_neverStops (format.stops_load _) fun value => ?_
    refine stopsOnly_bind (stopsOnly_lift _) fun _ _ => stopsOnly_when (stopsOnly_modify _) ?_
    split_ifs
    · exact stopsOnly_lift _
    · exact stopsOnly_lift _
  | store width =>
    refine stops_get_bind (stops_write_bind InstructionStop.access_write ?_)
    exact stops_of_neverStops (stopsOnly_when (stopsOnly_modify _) (stopsOnly_pure trivial))

theorem SingleTransfer.stops_execute (transfer : SingleTransfer) :
    Stops c transfer.execute (InstructionStop none c) :=
  stops_get_bind (transfer.stops_executeAt _ _)

/-- Between the read and the write of a swap the processor is as it was. -/
theorem Swap.stops_execute (swap : Swap) : Stops c swap.execute (InstructionStop none c) := by
  have hexchange : ∀ byte address new,
      Stops c (exchange byte address new) (InstructionStop none c) := by
    intro byte address new
    unfold exchange
    split_ifs
    all_goals
      refine stops_read_bind InstructionStop.access_read fun old => ?_
      exact stops_write_bind InstructionStop.access_read_write (stops_pure _)
  refine stops_get_bind (stops_bind_of_neverStops (hexchange _ _ _) fun old => ?_)
  exact stopsOnly_bind (stopsOnly_lift _) fun _ _ => stopsOnly_lift _

/-- A restoration of the saved status is all that can stop a data-processing instruction. -/
theorem DataProcessing.stops_execute (instruction : DataProcessing) :
    Stops c instruction.execute (InstructionStop none c) := by
  unfold execute
  refine stops_charge_when (fun _ _ _ => InstructionStop.charged 1) (stops_get_bind ?_)
  dsimp only
  split_ifs
  · exact stops_modify_bind (stops_pure _)
  · refine stops_bind_of_neverStops (stops_restorePsr fun _ field => ?_) fun _ => stopsOnly_lift _
    exact .invalidMode field (List.forall_mem_nil _)
  · exact stops_lift _
  · exact stops_modify_bind (stops_modify_bind (stops_pure _))
  · exact stops_modify_bind (stops_pure _)

theorem StatusWrite.stops_execute (write : StatusWrite) :
    Stops c write.execute (InstructionStop none c) := by
  unfold execute
  refine stops_get_bind ?_
  dsimp only
  split_ifs
  · cases c.spsr? with
    | some word => exact stops_set_bind (stops_pure _)
    | none => exact stops_note_bind (stops_pure _)
  · refine stops_bind_of_neverStops (stops_installPsrWord fun _ => ?_) fun _ =>
      stopsOnly_pure trivial
    exact .invalidMode _ (List.forall_mem_nil _)

/-! ### Block transfers -/

namespace BlockTransfer

variable {transfer : BlockTransfer}

theorem restorable_writeBackLoaded {cpu : Cpu} (base : Word) (h : cpu.Restorable) :
    (transfer.writeBackLoaded base cpu).Restorable := by
  unfold writeBackLoaded
  split_ifs
  · exact h.of_eq (cpu.cpsr_write _ _) (cpu.spsrs_write _ _)
  · exact h

/-- A block load stops at the check of the saved status, before any access, or at a read; once all
words have arrived it comes to its end. -/
theorem stops_executeLoad (hl : transfer.load = true) :
    Stops c (transfer.executeLoad (c.read transfer.base)) (InstructionStop (some transfer) c) := by
  unfold executeLoad
  have hcheck (field : BitVec 5) : InstructionStop (some transfer) c [] (.invalidMode field) c :=
    .invalidMode field (List.forall_mem_nil _)
  refine stops_checkRestore_when hcheck fun hr => yields_bind (yields_loadWords _ _ _) ?_ ?_
  · -- the words of the general registers have arrived, and only the program counter may be left
    rintro _ - _ (⟨words, hlen⟩ | _)
    rw [foldl_writeLoaded]
    by_cases hpc : transfer.lists .pc = true
    · have hlt : words.length < transfer.registers.length := by
        rw [length_registers_of_lists hpc, hlen]
        exact Nat.lt_succ_self _
      rw [if_pos hpc, ← loaded_eq hlt, ← hlen]
      refine stops_read_bind (fun reason => .load reason rfl hl hlt) fun target => ?_
      refine stops_charge_bind (stops_modify_bind ?_)
      split_ifs with hm
      · -- the saved status has been checked, and is what it was then
        have hr' : (transfer.loaded words c).Restorable :=
          (hr ⟨hm, hpc⟩).of_eq (cpsr_loaded words) (spsrs_loaded words)
        refine stops_bind_of_neverStops (stops_restorePsr fun hn => ?_) fun _ => stopsOnly_lift _
        exact absurd (restorable_writeBackLoaded _ hr') hn
      · exact stops_lift _
    · rw [if_neg hpc]
      exact stops_charge_bind (stops_modify_bind (stops_pure _))
  · -- the bus has failed the read for a general register
    rintro events _ _ (_ | ⟨words, hlt, reason⟩) _ ⟨⟩
    have hwords : words.length < transfer.registers.length :=
      Nat.lt_of_lt_of_le hlt transfer.length_generalRegisters_le
    rw [foldl_writeLoaded, ← loaded_eq hwords]
    exact .load reason rfl hl hwords

/-- A block store stops at a write, and has changed no register by then. -/
theorem stops_executeStore (hl : transfer.load = false) :
    Stops c (transfer.executeStore (c.read transfer.base)) (InstructionStop (some transfer) c) := by
  unfold executeStore
  refine stops_get_bind (yields_bind (yields_storeWords _ _ _) ?_ ?_)
  · rintro events - d -
    exact stops_of_neverStops (stopsOnly_when (stopsOnly_modify _) (stopsOnly_pure trivial))
  · rintro events _ _ (_ | ⟨hk, reason⟩) _ ⟨⟩
    exact .store reason rfl hl hk

theorem stops_execute (transfer : BlockTransfer) :
    Stops c transfer.execute (InstructionStop (some transfer) c) := by
  unfold execute
  refine stops_get_bind ?_
  split_ifs with hl
  · exact stops_executeLoad hl
  · exact stops_executeStore (Bool.eq_false_iff.2 hl)

end BlockTransfer

/-! ### The two instruction sets -/

theorem ArmInstruction.stops_execute (instruction : ArmInstruction) :
    Stops c instruction.execute (InstructionStop instruction.block? c) := by
  cases instruction with
  | dataProcessing instruction => exact instruction.stops_execute
  | writeStatus write => exact write.stops_execute
  | swap operation => exact operation.stops_execute
  | singleTransfer transfer => exact transfer.stops_execute
  | blockTransfer transfer => exact transfer.stops_execute
  | branchExchange target => exact stops_get_bind (stops_lift _)
  | softwareInterrupt comment =>
    exact stops_bind_of_neverStops (stops_lift _) fun _ => stopsOnly_pure trivial
  | _ => exact stops_lift _

theorem ThumbInstruction.stops_execute (instruction : ThumbInstruction) :
    Stops c instruction.execute (InstructionStop instruction.block? c) := by
  cases instruction with
  | pcRelativeLoad data offset => exact stops_get_bind (SingleTransfer.stops_executeAt _ _ _)
  | registerOffset access data base offset => exact SingleTransfer.stops_execute _
  | immediateOffset width load data base offset => exact SingleTransfer.stops_execute _
  | spRelative load data offset => exact SingleTransfer.stops_execute _
  | push extra list => exact BlockTransfer.stops_execute _
  | pop extra list => exact BlockTransfer.stops_execute _
  | multiple load base list => exact BlockTransfer.stops_execute _
  | alu operation source destination => exact stops_lift _
  | highRegister operation source destination => exact stops_lift _
  | conditionalBranch condition offset =>
    unfold execute
    refine stops_get_bind ?_
    split_ifs
    · exact stops_lift _
    · exact stops_pure _
  | loadAddress fromSp destination offset => exact stops_get_bind (stops_set_bind (stops_pure _))
  | adjustStack subtract amount => exact stops_get_bind (stops_set_bind (stops_pure _))
  | callFirst offset => exact stops_modify_bind (stops_pure _)
  | callSecond offset => exact stops_get_bind (stops_set_bind (stops_lift _))
  | softwareInterrupt comment =>
    exact stops_bind_of_neverStops (stops_lift _) fun _ => stopsOnly_pure trivial
  | shiftedMove | addSubtract | immediate | branch => exact stops_get_bind (stops_lift _)

/-! ### Opcodes -/

/-- The ways in which the execution of an opcode stops, after its one cycle. -/
inductive OpcodeStop (opcode : Opcode) (c : Cpu) : List BusEvent → Fault → Cpu → Prop
  /-- The opcode is no instruction. -/
  | undefined :
    OpcodeStop opcode c [.charge 1]
      (.undefinedInstruction opcode.toWord c.fetchAddress c.instructionSet) c
  /-- The instruction has no defined effect. -/
  | unpredictable (reason : Unpredictable) :
    OpcodeStop opcode c [.charge 1]
      (.unpredictableInstruction opcode.toWord c.fetchAddress reason) c
  /-- The instruction stops. -/
  | executing {events : List BusEvent} {fault : Fault} {d : Cpu}
      (h : InstructionStop opcode.block? c events fault d) :
    OpcodeStop opcode c (.charge 1 :: events) fault d

/-- The execution of an opcode stops in no other way. -/
theorem Opcode.stops_execute (opcode : Opcode) : Stops c opcode.execute (OpcodeStop opcode c) := by
  cases opcode with
  | arm word =>
    refine stops_charge_bind (stops_get_bind ?_)
    dsimp only
    split_ifs
    · refine stops_note_bind ?_
      cases hi : ArmInstruction.ofOpcode? word with
      | none => exact stops_throw .undefined
      | some instruction =>
        -- the transfer of the opcode is that of its instruction
        have hb : (Opcode.arm word).block? = instruction.block? := by
          rw [block?, hi, Option.bind_some]
        dsimp only
        cases instruction.refusal? with
        | some reason => exact stops_throw (.unpredictable reason)
        | none =>
          -- moving on does not fail
          refine stops_bind_of_neverStops (instruction.stops_execute.mono fun _ _ _ h => ?_)
            fun _ => stopsOnly_lift _
          exact .executing (hb ▸ h)
    · exact stops_note_bind (stops_lift _)
  | thumb halfword =>
    refine stops_charge_bind (stops_get_bind (stops_note_bind ?_))
    cases hi : ThumbInstruction.ofOpcode? halfword with
    | none => exact stops_throw .undefined
    | some instruction =>
      have hb : (Opcode.thumb halfword).block? = instruction.block? := by
        rw [block?, hi, Option.bind_some]
      dsimp only
      cases instruction.refusal? with
      | some reason => exact stops_throw (.unpredictable reason)
      | none =>
        refine stops_bind_of_neverStops (instruction.stops_execute.mono fun _ _ _ h => ?_)
          fun _ => stopsOnly_lift _
        exact .executing (hb ▸ h)

/-! ### Steps of a program -/

namespace ProgramStep

/-- Obtaining the opcode leaves the processor as it is and makes no branch. -/
theorem yields_opcode (step : ProgramStep) :
    Yields c step.opcode fun events _ d => d = c ∧ ∀ event ∈ events, ¬event.request.IsBranch := by
  cases step with
  | given opcode => exact ⟨rfl, List.forall_mem_nil _⟩
  | fetched =>
    refine yields_get_bind ?_
    -- the two branches are the two answers to the read
    cases c.instructionSet with
    | arm => rintro (_ | _) <;> exact ⟨rfl, List.forall_mem_singleton.2 id⟩
    | thumb => rintro (_ | _) <;> exact ⟨rfl, List.forall_mem_singleton.2 id⟩

variable {σ : Type} {bus : Bus σ} {state : σ}

/-- A step that stops has failed to obtain its opcode, or the opcode has stopped. -/
theorem stop_cases (step : ProgramStep) {fault : Fault}
    (h : (step.perform.runOn bus c state).value.1 = .error fault) :
    ((step.opcode.runOn bus c state).value.1 = .error fault ∧
        (step.perform.runOn bus c state).value.2 = c ∧
        (step.perform.runOn bus c state).events = (step.opcode.runOn bus c state).events) ∨
      ∃ opcode events, (step.opcode.runOn bus c state).value.1 = .ok opcode ∧
        (step.perform.runOn bus c state).events =
          (step.opcode.runOn bus c state).events ++ events ∧
        OpcodeStop opcode c events fault (step.perform.runOn bus c state).value.2 := by
  obtain ⟨hc, -⟩ := step.yields_opcode.run bus state
  rw [perform_eq] at h ⊢
  -- the fetch fails, or the opcode that it has delivered
  cases hr : (step.opcode.runOn bus c state).value.1 with
  | error fault' =>
    rw [runOn_bind_of_error (Prod.ext hr hc)] at h ⊢
    cases h
    exact .inl ⟨rfl, rfl, rfl⟩
  | ok opcode =>
    rw [runOn_bind_of_ok (Prod.ext hr hc)] at h ⊢
    exact .inr ⟨opcode, _, rfl, rfl, opcode.stops_execute.run h⟩

end ProgramStep

end Armv4t

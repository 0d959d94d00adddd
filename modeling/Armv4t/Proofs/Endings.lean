import Armv4t.Proofs.Congruence
import Armv4t.Proofs.ExceptionReturn
import Armv4t.Proofs.Faults

/-!
# How an opcode comes to its end

The counterpart of the ways in which an opcode stops.  Almost every instruction writes registers of
the current mode and flags and goes on, at the next instruction or elsewhere (`Cpu.Written`).  What
reaches further is an `Effect`, and `ArmInstruction.Allows` and `ThumbInstruction.Allows` say which
instructions have one.  `Opcode.ends_execute` describes every end of every opcode by these effects,
so that what an opcode cannot do is read off the two tables.
-/

namespace Armv4t

variable {c : Cpu}

/-! ### Effects beyond the registers of the current mode -/

/-- What an instruction can do besides writing registers of the current mode and flags. -/
inductive Effect where
  /-- The instruction set is selected by the lowest bit of an address. -/
  | exchange
  /-- The saved status is restored. -/
  | restore
  /-- A software interrupt is raised. -/
  | call
  /-- Fields of the current status are written. -/
  | writeStatus (write : StatusWrite)
  /-- Fields of the saved status are written. -/
  | saveStatus
  /-- A register is loaded as User mode sees it. -/
  | fillUser (register : Register)
  /-- The program counter is written without a branch. -/
  | writePc
deriving DecidableEq, Repr

/-- The effects that an ARM instruction can have. -/
inductive ArmInstruction.Allows : ArmInstruction → Effect → Prop
  | branchExchange (target : Register) : Allows (.branchExchange target) .exchange
  | loadPc {transfer : SingleTransfer} (ha : transfer.access = .load .word)
      (hd : transfer.data = .pc) : Allows (.singleTransfer transfer) .exchange
  | processPc {instruction : DataProcessing} (h : instruction.WritesPc)
      (hs : instruction.setFlags = true) : Allows (.dataProcessing instruction) .restore
  | blockLoadPc {transfer : BlockTransfer} (hm : transfer.mark = true)
      (hl : transfer.loadsPc = true) : Allows (.blockTransfer transfer) .restore
  | softwareInterrupt (comment : BitVec 24) : Allows (.softwareInterrupt comment) .call
  | writeStatus {write : StatusWrite} (h : write.saved = false) :
    Allows (.writeStatus write) (.writeStatus write)
  | saveStatus {write : StatusWrite} (h : write.saved = true) :
    Allows (.writeStatus write) .saveStatus
  | blockLoadUser {transfer : BlockTransfer} {register : Register} (hl : transfer.load = true)
      (hu : transfer.isUserBank = true) (hr : transfer.lists register = true) :
    Allows (.blockTransfer transfer) (.fillUser register)
  | readStatusPc (saved : Bool) : Allows (.readStatus saved .pc) .writePc
  | multiplyPc {operation : Multiply} (h : operation.destination = .pc) :
    Allows (.multiply operation) .writePc
  | multiplyLongPc {operation : LongMultiply}
      (h : operation.destinationLow = .pc ∨ operation.destinationHigh = .pc) :
    Allows (.multiplyLong operation) .writePc

/-- The effects that a Thumb instruction can have. -/
inductive ThumbInstruction.Allows : ThumbInstruction → Effect → Prop
  | exchange (source destination : Register) :
    Allows (.highRegister .exchange source destination) .exchange
  | softwareInterrupt (comment : BitVec 8) : Allows (.softwareInterrupt comment) .call

/-- The effects that an opcode can have when it is executed under the given flags. -/
inductive Opcode.Allows (flags : Flags) : Opcode → Effect → Prop
  | arm {word : Word} {instruction : ArmInstruction} {effect : Effect}
      (hc : (ArmInstruction.condition word).holds flags = true)
      (hi : ArmInstruction.ofOpcode? word = some instruction) (h : instruction.Allows effect) :
    Allows flags (.arm word) effect
  | thumb {halfword : Halfword} {instruction : ThumbInstruction} {effect : Effect}
      (hi : ThumbInstruction.ofOpcode? halfword = some instruction)
      (h : instruction.Allows effect) : Allows flags (.thumb halfword) effect

/-! ### Writes -/

namespace Cpu

/-- Registers of the current mode and flags have been written, and besides what the effects
allow. -/
structure Written (allows : Effect → Prop) (c d : Cpu) : Prop where
  cpsr : ∃ flags, d.cpsr = { c.cpsr with flags := flags }
  spsrs : d.spsrs = c.spsrs
  pc : d.pc = c.pc ∨ allows .writePc ∧ c.instructionSet.align d.pc = d.pc
  readIn (mode : Mode) (register : Register) (hc : ¬SameCell c.mode mode register)
    (hu : allows (.fillUser register) → ¬SameCell .user mode register) :
    d.readIn mode register = c.readIn mode register

namespace Written

variable {allows : Effect → Prop} {d : Cpu}

theorem refl (c : Cpu) : Written allows c c :=
  ⟨⟨c.cpsr.flags, rfl⟩, rfl, .inl rfl, fun _ _ _ _ => rfl⟩

theorem mono {allows' : Effect → Prop} (h : Written allows c d)
    (imp : ∀ effect, allows effect → allows' effect) : Written allows' c d := by
  refine ⟨h.cpsr, h.spsrs, ?_, fun mode register hc hu => ?_⟩
  · exact h.pc.imp_right fun hpc => ⟨imp _ hpc.1, hpc.2⟩
  · exact h.readIn mode register hc fun ha => hu (imp _ ha)

theorem mode_eq (h : Written allows c d) : d.mode = c.mode := by
  obtain ⟨flags, hc⟩ := h.cpsr
  unfold mode
  rw [hc]

theorem instructionSet_eq (h : Written allows c d) : d.instructionSet = c.instructionSet := by
  obtain ⟨flags, hc⟩ := h.cpsr
  unfold instructionSet
  rw [hc]

theorem spsr?_eq (h : Written allows c d) : d.spsr? = c.spsr? := by
  unfold spsr?
  rw [h.mode_eq, h.spsrs]

/-- A register of the current mode names no cell that the mode does not see. -/
theorem write (h : Written allows c d) {register : Register} (hr : register ≠ .pc)
    (value : Word) : Written allows c (d.write register value) := by
  refine ⟨?_, ?_, ?_, fun mode read hc hu => ?_⟩
  · rw [cpsr_write]
    exact h.cpsr
  · rw [spsrs_write, h.spsrs]
  · rw [pc_write _ _ hr]
    exact h.pc
  · have hother : ¬(read = register ∧ SameCell d.mode mode register) := by
      rintro ⟨rfl, hs⟩
      exact hc (h.mode_eq ▸ hs)
    rw [readIn_write _ _ hr, if_neg hother, h.readIn mode read hc hu]

theorem withFlags (h : Written allows c d) (flags : Flags) :
    Written allows c (d.withFlags flags) := by
  obtain ⟨before, hc⟩ := h.cpsr
  refine ⟨⟨flags, ?_⟩, h.spsrs, h.pc, fun mode register hs hu => ?_⟩
  · unfold Cpu.withFlags
    rw [hc]
  · rw [readIn_withFlags, h.readIn mode register hs hu]

/-- A program counter that is written without a branch is still that of an instruction. -/
theorem writePc (h : Written allows c d) (ha : allows .writePc) (value : Word) :
    Written allows c (d.write .pc value) := by
  refine ⟨?_, ?_, .inr ⟨ha, ?_⟩, fun mode register hc hu => ?_⟩
  · rw [cpsr_write]
    exact h.cpsr
  · rw [spsrs_write, h.spsrs]
  -- the set in use has not changed, and its boundaries are those of the address
  · change c.instructionSet.align (d.instructionSet.align value) = d.instructionSet.align value
    rw [h.instructionSet_eq]
    exact Width.align_align _ _
  · have hr : register ≠ .pc := by
      rintro rfl
      exact hc trivial
    exact (d.readIn_withPc _ mode hr).trans (h.readIn mode register hc hu)

/-- A register written without a branch, where this is allowed for the program counter. -/
theorem writeRegister (h : Written allows c d) {register : Register}
    (ha : register = .pc → allows .writePc) (value : Word) :
    Written allows c (d.write register value) := by
  by_cases hr : register = .pc
  · rw [hr]
    exact h.writePc (ha hr) value
  · exact h.write hr value

/-- The words of a block load reach registers of the current mode or allowed ones of User mode. -/
theorem fillIn {transfer : BlockTransfer} (words : List Word)
    (ha : ∀ register, transfer.isUserBank = true → transfer.lists register = true →
      allows (.fillUser register)) :
    Written allows c (c.fillIn (transfer.bankMode c.mode) transfer.generalRegisters words) := by
  have hpc : .pc ∉ transfer.generalRegisters := BlockTransfer.pc_notMem_generalRegisters
  refine ⟨⟨c.cpsr.flags, ?_⟩, spsrs_fillIn, .inl ?_, fun mode register hc hu => ?_⟩
  · rw [cpsr_fillIn]
  · -- every mode sees the same program counter
    have hread : (c.fillIn (transfer.bankMode c.mode) transfer.generalRegisters words).readIn
        c.mode .pc = c.readIn c.mode .pc :=
      readIn_fillIn_of_notMem hpc fun hm => absurd (List.mem_of_mem_take hm) hpc
    exact hread
  · refine readIn_fillIn_of_notMem hpc fun hm => ?_
    unfold BlockTransfer.bankMode
    split_ifs with hbank
    · have hlisted := List.mem_filter.1 (List.mem_of_mem_take hm)
      exact hu (ha register hbank hlisted.2)
    · exact hc

end Written

end Cpu

/-! ### Ends of an instruction -/

/-- The processor at the start of a handler but for the program counter. -/
def Cpu.handling (cpu : Cpu) (exception : Exception) : Cpu :=
  ((cpu.withPsr (exception.handlerPsr cpu.cpsr)).write .lr
    (cpu.returnAddress exception)).withSpsr cpu.cpsr.toWord

/-- The processors from which an instruction branches: it has written registers, and may have
replaced the status. -/
inductive Redirected (allows : Effect → Prop) (c : Cpu) : Cpu → Prop
  | within {d : Cpu} (h : c.Written allows d) : Redirected allows c d
  | exchanged {d : Cpu} (ha : allows .exchange) (h : c.Written allows d) (set : InstructionSet) :
    Redirected allows c (d.withInstructionSet set)
  | restored {d : Cpu} {psr : Psr} (ha : allows .restore) (h : c.Written allows d)
      (hs : c.spsr? = some psr.toWord) : Redirected allows c (d.withPsr psr)
  | called (ha : allows .call) : Redirected allows c (c.handling .softwareInterrupt)

/-- The ends of an instruction. -/
inductive InstructionEnd (allows : Effect → Prop) (c : Cpu) : List BusEvent → Flow → Cpu → Prop
  /-- It has written registers. -/
  | next {events : List BusEvent} {d : Cpu} (hq : ∀ event ∈ events, ¬event.request.IsBranch)
      (h : c.Written allows d) : InstructionEnd allows c events .next d
  /-- It has written fields of the current status. -/
  | status {events : List BusEvent} {write : StatusWrite} {value : Word} {psr : Psr}
      (hq : ∀ event ∈ events, ¬event.request.IsBranch) (ha : allows (.writeStatus write))
      (hp : Psr.ofWord? (StatusWrite.merge (write.currentMask c.mode) value c.cpsr.toWord) =
        some psr) : InstructionEnd allows c events .next (c.withPsr psr)
  /-- It has written the saved status. -/
  | saved {events : List BusEvent} (hq : ∀ event ∈ events, ¬event.request.IsBranch)
      (ha : allows .saveStatus) (value : Word) :
    InstructionEnd allows c events .next (c.withSpsr value)
  /-- It has branched. -/
  | jump {events : List BusEvent} {d : Cpu} (hq : ∀ event ∈ events, ¬event.request.IsBranch)
      (h : Redirected allows c d) (address : Word) :
    InstructionEnd allows c (events ++ d.branchEvents address) .jump (d.branched address)

variable {allows : Effect → Prop} {d : Cpu}

/-- More effects allow more ends. -/
theorem InstructionEnd.mono {allows' : Effect → Prop} {events : List BusEvent} {flow : Flow}
    (h : InstructionEnd allows c events flow d) (imp : ∀ effect, allows effect → allows' effect) :
    InstructionEnd allows' c events flow d := by
  cases h with
  | next hq h => exact .next hq (h.mono imp)
  | status hq ha hp => exact .status hq (imp _ ha) hp
  | saved hq ha value => exact .saved hq (imp _ ha) value
  -- a branch, whatever has led to it
  | jump hq h address =>
    refine .jump hq ?_ address
    cases h with
    | within h => exact .within (h.mono imp)
    | exchanged ha h set => exact .exchanged (imp _ ha) (h.mono imp) set
    | restored ha h hs => exact .restored (imp _ ha) (h.mono imp) hs
    | called ha => exact .called (imp _ ha)

/-- An instruction ends as it does after any event that is no branch. -/
theorem InstructionEnd.cons {event : BusEvent} {events : List BusEvent} {flow : Flow}
    (he : ¬event.request.IsBranch) (h : InstructionEnd allows c events flow d) :
    InstructionEnd allows c (event :: events) flow d := by
  cases h with
  | next hq h => exact .next (List.forall_mem_cons.2 ⟨he, hq⟩) h
  | status hq ha hp => exact .status (List.forall_mem_cons.2 ⟨he, hq⟩) ha hp
  | saved hq ha value => exact .saved (List.forall_mem_cons.2 ⟨he, hq⟩) ha value
  | jump hq h address => exact .jump (List.forall_mem_cons.2 ⟨he, hq⟩) h address

theorem InstructionEnd.append {before events : List BusEvent} {flow : Flow}
    (hb : ∀ event ∈ before, ¬event.request.IsBranch)
    (h : InstructionEnd allows c events flow d) :
    InstructionEnd allows c (before ++ events) flow d := by
  induction before with
  | nil => exact h
  | cons event rest ih =>
    obtain ⟨he, hrest⟩ := List.forall_mem_cons.1 hb
    exact .cons he (ih hrest)

namespace CpuM

theorem yields_internal_bind {cycles : Nat} {f : Unit → CpuM Flow}
    (h : Yields d (f ()) (InstructionEnd allows c)) :
    Yields d (charge cycles >>= f) (InstructionEnd allows c) :=
  yields_charge_bind (h.mono fun _ _ => .cons id)

/-- The end of an instruction that goes on with the next one. -/
theorem yields_next (h : c.Written allows d) :
    Yields d (pure .next) (InstructionEnd allows c) :=
  yields_pure (.next (List.forall_mem_nil _) h)

theorem yields_branch (h : Redirected allows c d) (address : Word) :
    Yields d (branchTo address) (InstructionEnd allows c) :=
  yields_branchTo (.jump (List.forall_mem_nil _) h address)

theorem yields_branchExchange (ha : allows .exchange) (h : c.Written allows d) (address : Word) :
    Yields d (branchExchange address) (InstructionEnd allows c) :=
  yields_modify_bind (yields_branch (.exchanged ha h _) address)

theorem yields_writeOrBranch (h : c.Written allows d) (register : Register) (value : Word) :
    Yields d (writeOrBranch register value) (InstructionEnd allows c) := by
  unfold writeOrBranch
  split_ifs with hr
  · exact yields_branch (.within h) value
  · exact yields_modify_bind (yields_next (h.write hr value))

/-- Raising an exception ends with a branch to its handler. -/
theorem yields_raise (exception : Exception) :
    Yields c (raise exception) fun events _ d =>
      events = (c.handling exception).branchEvents exception.vector ∧
        d = (c.handling exception).branched exception.vector := by
  unfold raise
  refine yields_get_bind (yields_note_bind ?_)
  refine yields_silent_bind (yields_installPsr _) fun _ => yields_modify_bind ?_
  exact fun _ _ => ⟨rfl, rfl⟩

end CpuM

open StepM

/-- After a computation without a branch, an instruction ends as it does from there. -/
theorem StepM.ends_quiet_bind {x : StepM α} {f : α → StepM Flow} {mid : Cpu → Prop} {e : Cpu}
    (h : Ends e x fun events _ d => mid d ∧ ∀ event ∈ events, ¬event.request.IsBranch)
    (k : ∀ a d, mid d → Ends d (f a) (InstructionEnd allows c)) :
    Ends e (x >>= f) (InstructionEnd allows c) := by
  refine ends_bind h fun events a d hd => (k a d hd.1).mono fun more flow ended hend => ?_
  exact hend.append hd.2

theorem StepM.ends_internal_bind {cycles : Nat} {f : Unit → StepM Flow}
    (h : Ends d (f ()) (InstructionEnd allows c)) :
    Ends d (liftM (CpuM.charge cycles) >>= f) (InstructionEnd allows c) :=
  ends_charge_bind (h.mono fun _ _ _ => .cons id)

theorem StepM.ends_internal_when {p : Prop} [Decidable p] {cycles : Nat} {f : Unit → StepM Flow}
    (h : Ends d (f ()) (InstructionEnd allows c)) :
    Ends d (if p then liftM (CpuM.charge cycles) >>= f else f ()) (InstructionEnd allows c) :=
  ends_when (fun _ => ends_internal_bind h) h

theorem StepM.ends_next (h : c.Written allows d) :
    Ends d (pure .next) (InstructionEnd allows c) :=
  ends_pure (.next (List.forall_mem_nil _) h)

/-! ### Instructions on registers -/

theorem DataProcessing.ends_execute {instruction : DataProcessing}
    (ha : instruction.WritesPc → instruction.setFlags = true → allows .restore) :
    Ends c instruction.execute (InstructionEnd allows c) := by
  have hw : c.Written allows c := .refl c
  unfold execute
  refine ends_internal_when (ends_get_bind ?_)
  dsimp only
  split_ifs with ht hd hs hs
  · exact ends_modify_bind (ends_next (hw.withFlags _))
  -- the saved status is restored by an instruction that writes the program counter only
  · have hr := ha ⟨Bool.eq_false_iff.2 ht, hd⟩ hs
    refine ends_restorePsr_bind (fun _ => ?_) fun psr hp => ?_
    · exact ends_lift (CpuM.yields_branch (.within hw) _)
    · exact ends_lift (CpuM.yields_branch (.restored hr hw hp) _)
  · exact ends_lift (CpuM.yields_branch (.within hw) _)
  · exact ends_modify_bind (ends_modify_bind (ends_next ((hw.write hd _).withFlags _)))
  · exact ends_modify_bind (ends_next (hw.write hd _))

theorem Multiply.yields_execute {operation : Multiply}
    (ha : operation.destination = .pc → allows .writePc) :
    CpuM.Yields c operation.execute (InstructionEnd allows c) := by
  have hw := (Cpu.Written.refl c).writeRegister ha (operation.result c)
  unfold execute
  refine CpuM.yields_get_bind (CpuM.yields_internal_bind ?_)
  refine CpuM.yields_silent_bind (CpuM.yields_writeRegister _ _) fun _ => ?_
  split_ifs
  · exact CpuM.yields_modify_bind (CpuM.yields_next (hw.withFlags _))
  · exact CpuM.yields_next hw

theorem LongMultiply.yields_execute {operation : LongMultiply}
    (ha : operation.destinationLow = .pc ∨ operation.destinationHigh = .pc → allows .writePc) :
    CpuM.Yields c operation.execute (InstructionEnd allows c) := by
  have hlow := (Cpu.Written.refl c).writeRegister (fun h => ha (.inl h))
    -- the two writes one after the other, either of which may be the plain one
    ((operation.result c).extractLsb' 0 32)
  have hw := hlow.writeRegister (fun h => ha (.inr h)) ((operation.result c).extractLsb' 32 32)
  unfold execute
  refine CpuM.yields_get_bind (CpuM.yields_internal_bind ?_)
  refine CpuM.yields_silent_bind (CpuM.yields_writeRegister _ _) fun _ => ?_
  refine CpuM.yields_silent_bind (CpuM.yields_writeRegister _ _) fun _ => ?_
  split_ifs
  · exact CpuM.yields_modify_bind (CpuM.yields_next (hw.withFlags _))
  · exact CpuM.yields_next hw

theorem yields_readStatus {saved : Bool} {destination : Register}
    (ha : destination = .pc → allows .writePc) :
    CpuM.Yields c (readStatus saved destination) (InstructionEnd allows c) := by
  have hwrite (value : Word) : CpuM.Yields c
      (CpuM.writeRegister destination value >>= fun _ => pure .next) (InstructionEnd allows c) := by
    -- every reading is a write of one register, and of the program counter only by permission
    refine CpuM.yields_silent_bind (CpuM.yields_writeRegister _ _) fun _ => CpuM.yields_next ?_
    exact (Cpu.Written.refl c).writeRegister ha value
  unfold readStatus
  refine CpuM.yields_get_bind ?_
  dsimp only
  split_ifs
  · cases c.spsr? with
    | some word => exact hwrite word
    | none => exact CpuM.yields_note_bind (hwrite _)
  · exact hwrite _

theorem StatusWrite.ends_execute {write : StatusWrite}
    (hs : write.saved = true → allows .saveStatus)
    (hc : write.saved = false → allows (.writeStatus write)) :
    Ends c write.execute (InstructionEnd allows c) := by
  unfold execute
  refine ends_get_bind ?_
  dsimp only
  split_ifs with hsaved
  · cases c.spsr? with
    -- the saved word is kept as it is, whatever it says
    | some word =>
      exact ends_set_bind (ends_pure (.saved (List.forall_mem_nil _) (hs hsaved) _))
    | none => exact ends_note_bind (ends_next (.refl c))
  · refine ends_installPsrWord_bind fun psr hp => ends_pure ?_
    exact .status (List.forall_mem_nil _) (hc (Bool.eq_false_iff.2 hsaved)) hp

/-! ### Transfers -/

theorem LoadFormat.ends_load (format : LoadFormat) (address : Word) :
    Ends c (format.load address) fun events _ d =>
      d = c ∧ ∀ event ∈ events, ¬event.request.IsBranch := by
  -- each format is one read, with something made of its answer
  have hread (width : Width) (address : Word) (f : BitVec width.bits → Word) :
      Ends c (do return f (← StepM.read width address)) fun events _ d =>
        d = c ∧ ∀ event ∈ events, ¬event.request.IsBranch := by
    refine ends_bind (ends_read width address) fun events value d hd => ends_pure ?_
    rw [List.append_nil]
    exact hd
  unfold load
  cases format with
  | signedHalfword =>
    dsimp only
    split_ifs
    · exact hread .byte _ _
    · exact hread .halfword _ _
  | byte => exact hread .byte _ _
  | halfword => exact hread .halfword _ _
  | word => exact hread .word _ _
  | signedByte => exact hread .byte _ _

namespace SingleTransfer

variable {transfer : SingleTransfer}

theorem base_ne_pc (hr : transfer.refusal? = none) (hw : transfer.indexing.writesBack = true) :
    transfer.base ≠ .pc := by
  intro hb
  unfold refusal? at hr
  rw [if_pos ⟨hw, hb⟩] at hr
  nomatch hr

theorem ends_executeAt (hr : transfer.refusal? = none)
    (ha : transfer.access = .load .word → transfer.data = .pc → allows .exchange)
    (base offset : Word) :
    Ends c (transfer.executeAt base offset) (InstructionEnd allows c) := by
  have hw : c.Written allows c := .refl c
  unfold executeAt
  dsimp only
  cases haccess : transfer.access with
  | load format =>
    have hdata (value : Word) {d : Cpu} (hd : c.Written allows d) :
        Ends d (if transfer.data = .pc ∧ format = .word then
          liftM (CpuM.branchExchange value) else liftM (CpuM.writeOrBranch transfer.data value))
          (InstructionEnd allows c) := by
      split_ifs with h
      · exact ends_lift (CpuM.yields_branchExchange (ha (by rw [haccess, h.2]) h.1) hd value)
      · exact ends_lift (CpuM.yields_writeOrBranch hd _ value)
    refine ends_quiet_bind (format.ends_load _) ?_
    rintro value _ rfl
    -- the base is written back first, and then the loaded value reaches its register
    refine ends_internal_bind (ends_when (fun hback => ends_modify_bind ?_) (hdata value hw))
    exact hdata value (hw.write (base_ne_pc hr hback.1) _)
  | store width =>
    refine ends_get_bind (ends_quiet_bind (ends_write _ _ _) ?_)
    rintro _ _ rfl
    refine ends_when (fun hback => ends_modify_bind ?_) (ends_next hw)
    exact ends_next (hw.write (base_ne_pc hr hback) _)

theorem ends_execute (hr : transfer.refusal? = none)
    (ha : transfer.access = .load .word → transfer.data = .pc → allows .exchange) :
    Ends c transfer.execute (InstructionEnd allows c) :=
  ends_get_bind (ends_executeAt hr ha _ _)

end SingleTransfer

theorem Swap.ends_execute (swap : Swap) : Ends c swap.execute (InstructionEnd allows c) := by
  have hexchange (byte : Bool) (address new : Word) :
      Ends c (exchange byte address new) fun events _ d =>
        d = c ∧ ∀ event ∈ events, ¬event.request.IsBranch := by
    -- an exchange is a read and a write, with no branch between
    have hboth (width : Width) (address : Word) (value : BitVec width.bits)
        (f : BitVec width.bits → Word) :
        Ends c (do
          let old ← StepM.read width address
          StepM.write width address value
          return f old) fun events _ d =>
            d = c ∧ ∀ event ∈ events, ¬event.request.IsBranch := by
      refine ends_bind (ends_read width address) ?_
      rintro events old _ ⟨rfl, hq⟩
      refine ends_bind (ends_write width address value) ?_
      rintro more _ _ ⟨rfl, hq'⟩
      refine ends_pure ⟨rfl, ?_⟩
      rw [List.append_nil]
      exact List.forall_mem_append.2 ⟨hq, hq'⟩
    unfold exchange
    split_ifs
    · exact hboth .byte _ _ _
    · exact hboth .word _ _ _
  refine ends_get_bind (ends_quiet_bind (hexchange _ _ _) ?_)
  rintro old _ rfl
  exact ends_internal_bind (ends_lift (CpuM.yields_writeOrBranch (.refl _) _ old))

namespace BlockTransfer

variable {transfer : BlockTransfer}

theorem written_writeBackLoaded (hr : transfer.refusal? = none) (h : c.Written allows d)
    (base : Word) : c.Written allows (transfer.writeBackLoaded base d) := by
  unfold writeBackLoaded
  split_ifs with hw
  · exact h.write (writeBack_ne_pc hr hw.1) _
  · exact h

/-- When the words of the general registers have arrived, only these have been written. -/
theorem ends_loadWords (start : Word)
    (ha : ∀ register, transfer.isUserBank = true → transfer.lists register = true →
      allows (.fillUser register)) :
    Ends c (loadWords transfer.writeLoaded transfer.generalRegisters start) fun events _ d =>
      c.Written allows d ∧ ∀ event ∈ events, ¬event.request.IsBranch := by
  refine BusProgram.Yields.mono (yields_loadWords _ _ _) ?_
  rintro _ ⟨_, _⟩ (⟨words, hlen⟩ | _)
  · intro _ _
    rw [foldl_writeLoaded]
    exact ⟨.fillIn words ha, fun event => not_isBranch_of_mem_wordReads⟩
  · rintro _ ⟨⟩

theorem ends_storeWords (value : Register → Word) (registers : List Register) (start : Word) :
    Ends c (storeWords value registers start) fun events _ d =>
      d = c ∧ ∀ event ∈ events, ¬event.request.IsBranch := by
  refine BusProgram.Yields.mono (yields_storeWords _ _ _) ?_
  rintro _ ⟨_, _⟩ (_ | _)
  · exact fun _ _ => ⟨rfl, fun event => not_isBranch_of_mem_wordWrites⟩
  · rintro _ ⟨⟩

theorem ends_executeLoad (hr : transfer.refusal? = none) (hl : transfer.load = true)
    (hrestore : transfer.mark = true → transfer.loadsPc = true → allows .restore)
    (ha : ∀ register, transfer.isUserBank = true → transfer.lists register = true →
      allows (.fillUser register)) (base : Word) :
    Ends c (transfer.executeLoad base) (InstructionEnd allows c) := by
  unfold executeLoad
  refine ends_checkRestore_when (ends_quiet_bind (ends_loadWords _ ha) fun _ d hw => ?_)
  -- the base is written back, if at all, before the branch
  have hback : c.Written allows (transfer.writeBackLoaded base d) :=
    written_writeBackLoaded hr hw base
  by_cases hpc : transfer.lists .pc = true
  · rw [if_pos hpc]
    refine ends_quiet_bind (ends_read _ _) ?_
    rintro target _ rfl
    refine ends_internal_bind (ends_modify_bind (ends_when (fun hm => ?_) ?_))
    · have hloads : transfer.loadsPc = true := Bool.and_eq_true_iff.2 ⟨hl, hpc⟩
      refine ends_restorePsr_bind (fun _ => ?_) fun psr hp => ?_
      · exact ends_lift (CpuM.yields_branch (.within hback) target)
      -- neither the words nor the base have changed the saved status
      · rw [hback.spsr?_eq] at hp
        exact ends_lift (CpuM.yields_branch (.restored (hrestore hm hloads) hback hp) target)
    · exact ends_lift (CpuM.yields_branch (.within hback) target)
  · rw [if_neg hpc]
    refine ends_internal_bind (ends_modify_bind ?_)
    exact ends_next hback

theorem ends_executeStore (hr : transfer.refusal? = none) (base : Word) :
    Ends c (transfer.executeStore base) (InstructionEnd allows c) := by
  have hw : c.Written allows c := .refl c
  unfold executeStore
  refine ends_get_bind (ends_quiet_bind (ends_storeWords _ _ _) ?_)
  rintro _ _ rfl
  refine ends_when (fun hback => ends_modify_bind ?_) (ends_next hw)
  exact ends_next (hw.write (writeBack_ne_pc hr hback) _)

theorem ends_execute (hr : transfer.refusal? = none)
    (hrestore : transfer.mark = true → transfer.loadsPc = true → allows .restore)
    (ha : ∀ register, transfer.load = true → transfer.isUserBank = true →
      transfer.lists register = true → allows (.fillUser register)) :
    Ends c transfer.execute (InstructionEnd allows c) := by
  unfold execute
  refine ends_get_bind ?_
  split_ifs with hl
  · exact ends_executeLoad hr hl hrestore (fun register => ha register hl) _
  · exact ends_executeStore hr _

/-- A transfer without the mark has no effect beyond the registers of the current mode. -/
theorem ends_execute_of_mark (hr : transfer.refusal? = none) (hm : transfer.mark = false) :
    Ends c transfer.execute (InstructionEnd allows c) := by
  refine ends_execute hr (fun h => ?_) fun _ _ h => ?_
  · rw [hm] at h
    exact absurd h Bool.false_ne_true
  · rw [isUserBank, hm] at h
    exact absurd h Bool.false_ne_true

end BlockTransfer

/-! ### The two instruction sets -/

/-- The end of a software interrupt. -/
theorem ends_softwareInterrupt (ha : allows .call) :
    Ends c (do
      CpuM.raise .softwareInterrupt
      return .jump) (InstructionEnd allows c) := by
  refine ends_bind (ends_lift (CpuM.yields_raise .softwareInterrupt)) ?_
  rintro _ _ _ ⟨rfl, rfl⟩
  refine ends_pure ?_
  rw [List.append_nil]
  exact .jump (List.forall_mem_nil _) (.called ha) _

/-- An instruction that is not refused ends with the effects that it can have, and no others. -/
theorem ArmInstruction.ends_execute {instruction : ArmInstruction}
    (hr : instruction.refusal? = none) :
    Ends c instruction.execute (InstructionEnd instruction.Allows c) := by
  cases instruction with
  | dataProcessing instruction => exact DataProcessing.ends_execute .processPc
  -- a status is read into the program counter by an instruction that says so
  | readStatus saved destination =>
    refine ends_lift (yields_readStatus ?_)
    rintro rfl
    exact .readStatusPc saved
  | writeStatus write => exact write.ends_execute .saveStatus .writeStatus
  | multiply operation => exact ends_lift (Multiply.yields_execute .multiplyPc)
  | multiplyLong operation => exact ends_lift (LongMultiply.yields_execute .multiplyLongPc)
  | swap operation => exact operation.ends_execute
  | branchExchange target =>
    refine ends_get_bind (ends_lift ?_)
    exact CpuM.yields_branchExchange (.branchExchange target) (.refl c) _
  | singleTransfer transfer => exact SingleTransfer.ends_execute hr .loadPc
  | blockTransfer transfer =>
    exact BlockTransfer.ends_execute hr .blockLoadPc fun _ => .blockLoadUser
  -- a link changes one register more
  | branch link offset =>
    have hw : c.Written (ArmInstruction.branch link offset).Allows c := .refl c
    refine ends_lift (CpuM.yields_get_bind ?_)
    split_ifs
    · exact CpuM.yields_modify_bind (CpuM.yields_branch (.within (hw.write (by decide) _)) _)
    · exact CpuM.yields_branch (.within hw) _
  | softwareInterrupt comment => exact ends_softwareInterrupt (.softwareInterrupt comment)

namespace ThumbInstruction

theorem yields_writeResult (destination : LowRegister) (result : AluResult) :
    CpuM.Yields c (writeResult destination result) (InstructionEnd allows c) := by
  have hw : c.Written allows (c.write (.low destination) result.value) :=
    (Cpu.Written.refl c).write (by simp) _
  exact CpuM.yields_modify_bind (CpuM.yields_next (hw.withFlags _))

theorem yields_finish (operation : AluOperation) (destination : LowRegister)
    (result : AluResult) :
    CpuM.Yields c (finish operation destination result) (InstructionEnd allows c) := by
  unfold finish
  split_ifs
  · exact CpuM.yields_modify_bind (CpuM.yields_next ((Cpu.Written.refl c).withFlags _))
  · exact yields_writeResult _ _

theorem yields_executeAlu (operation : RegisterOperation) (source destination : LowRegister) :
    CpuM.Yields c (executeAlu operation source destination) (InstructionEnd allows c) := by
  refine CpuM.yields_get_bind ?_
  cases operation with
  | process operation => exact yields_finish _ _ _
  | shift kind => exact CpuM.yields_internal_bind (yields_writeResult _ _)
  | negate => exact yields_writeResult _ _
  | multiply => exact Multiply.yields_execute fun hd => absurd hd (by simp)

theorem yields_executeHigh {operation : HighOperation}
    (ha : operation = .exchange → allows .exchange) (source destination : Register) :
    CpuM.Yields c (executeHigh operation source destination) (InstructionEnd allows c) := by
  refine CpuM.yields_get_bind ?_
  cases operation with
  | add => exact CpuM.yields_writeOrBranch (.refl c) _ _
  | compare =>
    exact CpuM.yields_modify_bind (CpuM.yields_next ((Cpu.Written.refl c).withFlags _))
  | move => exact CpuM.yields_writeOrBranch (.refl c) _ _
  | exchange => exact CpuM.yields_branchExchange (ha rfl) (.refl c) _

@[inherit_doc ArmInstruction.ends_execute]
theorem ends_execute {instruction : ThumbInstruction} (hr : instruction.refusal? = none) :
    Ends c instruction.execute (InstructionEnd instruction.Allows c) := by
  have hw : c.Written instruction.Allows c := .refl c
  cases instruction with
  | shiftedMove kind amount source destination =>
    exact ends_get_bind (ends_lift (yields_writeResult _ _))
  | addSubtract subtract operand source destination =>
    exact ends_get_bind (ends_lift (yields_writeResult _ _))
  | immediate operation destination value =>
    exact ends_get_bind (ends_lift (yields_finish _ _ _))
  | alu operation source destination => exact ends_lift (yields_executeAlu _ _ _)
  | highRegister operation source destination =>
    refine ends_lift (yields_executeHigh ?_ _ _)
    rintro rfl
    exact .exchange source destination
  -- the transfers load low registers, so that none of them exchanges
  | pcRelativeLoad data offset =>
    exact ends_get_bind (SingleTransfer.ends_executeAt rfl (fun _ hd => nomatch hd) _ _)
  | registerOffset access data base offset =>
    exact SingleTransfer.ends_execute rfl fun _ hd => nomatch hd
  | immediateOffset width load data base offset =>
    exact SingleTransfer.ends_execute rfl fun _ hd => nomatch hd
  | spRelative load data offset =>
    exact SingleTransfer.ends_execute rfl fun _ hd => nomatch hd
  | loadAddress fromSp destination offset =>
    exact ends_get_bind (ends_set_bind (ends_next (hw.write (by simp) _)))
  | adjustStack subtract amount =>
    exact ends_get_bind (ends_set_bind (ends_next (hw.write (by simp) _)))
  | push extra list => exact BlockTransfer.ends_execute_of_mark hr rfl
  | pop extra list => exact BlockTransfer.ends_execute_of_mark hr rfl
  | multiple load base list => exact BlockTransfer.ends_execute_of_mark hr rfl
  | conditionalBranch condition offset =>
    refine ends_get_bind ?_
    split_ifs
    · exact ends_lift (CpuM.yields_branch (.within hw) _)
    · exact ends_next hw
  | softwareInterrupt comment => exact ends_softwareInterrupt (.softwareInterrupt comment)
  | branch offset => exact ends_get_bind (ends_lift (CpuM.yields_branch (.within hw) _))
  | callFirst offset => exact ends_modify_bind (ends_next (hw.write (by simp) _))
  | callSecond offset =>
    refine ends_get_bind (ends_set_bind (ends_lift (CpuM.yields_branch (.within ?_) _)))
    exact hw.write (by simp) _

end ThumbInstruction

/-! ### Opcodes -/

/-- The processor with its program counter past an instruction of the given set. -/
def Cpu.advanced (cpu : Cpu) (set : InstructionSet) : Cpu :=
  { cpu with pc := cpu.pc + set.size }

/-- The ends of an opcode, after its one cycle. -/
inductive OpcodeEnd (opcode : Opcode) (c : Cpu) : List BusEvent → Cpu → Prop
  /-- Its condition does not hold. -/
  | skipped (h : opcode.holds c.cpsr.flags = false) :
    OpcodeEnd opcode c [.charge 1] (c.advanced opcode.instructionSet)
  /-- Execution goes on with the next instruction. -/
  | next {events : List BusEvent} {d : Cpu}
      (h : InstructionEnd (opcode.Allows c.cpsr.flags) c events .next d) :
    OpcodeEnd opcode c (.charge 1 :: events) (d.advanced opcode.instructionSet)
  /-- Execution goes on where the instruction has branched to. -/
  | jump {events : List BusEvent} {d : Cpu}
      (h : InstructionEnd (opcode.Allows c.cpsr.flags) c events .jump d) :
    OpcodeEnd opcode c (.charge 1 :: events) d

/-- An opcode comes to its end with its instruction. -/
theorem ends_proceed (opcode : Opcode) {x : StepM Flow} {allowed : Effect → Prop}
    (h : Ends c x (InstructionEnd allowed c))
    (imp : ∀ effect, allowed effect → opcode.Allows c.cpsr.flags effect) :
    Ends c (do proceed opcode.instructionSet (← x)) fun events _ d =>
      OpcodeEnd opcode c (.charge 1 :: events) d := by
  refine ends_bind h fun events flow d hend => ?_
  -- both ways, what the instruction did is what the opcode did behind its own cycle
  cases flow with
  | next =>
    rintro _ ⟨⟩
    rw [List.append_nil]
    exact .next (hend.mono imp)
  | jump =>
    rintro _ ⟨⟩
    rw [List.append_nil]
    exact .jump (hend.mono imp)

/-- The execution of an opcode ends in no other way. -/
theorem Opcode.ends_execute (opcode : Opcode) :
    Ends c opcode.execute fun events _ d => OpcodeEnd opcode c events d := by
  cases opcode with
  | arm word =>
    refine ends_charge_bind (ends_get_bind ?_)
    dsimp only
    split_ifs with hc
    · refine ends_note_bind ?_
      cases hi : ArmInstruction.ofOpcode? word with
      | none => exact ends_throw
      | some instruction =>
        dsimp only
        -- a refused instruction comes to no end
        cases hr : instruction.refusal? with
        | some reason => exact ends_throw
        | none =>
          exact ends_proceed (.arm word) (ArmInstruction.ends_execute hr) fun _ => .arm hc hi
    · refine ends_note_bind ?_
      rintro _ ⟨⟩
      exact .skipped (Bool.eq_false_iff.2 hc)
  | thumb halfword =>
    refine ends_charge_bind (ends_get_bind (ends_note_bind ?_))
    cases hi : ThumbInstruction.ofOpcode? halfword with
    | none => exact ends_throw
    | some instruction =>
      dsimp only
      cases hr : instruction.refusal? with
      | some reason => exact ends_throw
      | none =>
        exact ends_proceed (.thumb halfword) (ThumbInstruction.ends_execute hr) fun _ => .thumb hi

/-- An opcode that stops has found its condition to hold. -/
theorem Opcode.stops_holds (opcode : Opcode) :
    Stops c opcode.execute fun _ _ _ => opcode.holds c.cpsr.flags = true := by
  -- a fault of an executed instruction, as any other outcome of it, comes after the condition
  have hany {α : Type} {p : Prop} (x : StepM α) (hp : p) : Stops c x fun _ _ _ => p :=
    BusProgram.Yields.mono (BusProgram.Always.yields (BusProgram.always_true _))
      fun _ _ _ _ _ => hp
  cases opcode with
  | arm word =>
    refine stops_charge_bind (stops_get_bind ?_)
    dsimp only
    split_ifs with hc
    · exact hany _ hc
    · exact stops_note_bind (stops_lift _)
  | thumb halfword => exact hany _ rfl

/-- A step has failed to obtain its opcode and left the processor as it was, or the opcode has
stopped, or it has come to its end. -/
theorem ProgramStep.perform_cases (step : ProgramStep) (c : Cpu) {σ : Type} (bus : Bus σ)
    (state : σ) :
    let run := step.perform.runOn bus c state
    (∃ fault, run.value = (.error fault, c)) ∨
    ∃ opcode before events, (step.opcode.runOn bus c state).value.1 = .ok opcode ∧
      run.events = before ++ events ∧
      ((∃ fault, run.value.1 = .error fault ∧ opcode.holds c.cpsr.flags = true ∧
          OpcodeStop opcode c events fault run.value.2) ∨
        run.value.1 = .ok () ∧ OpcodeEnd opcode c events run.value.2) := by
  obtain ⟨hc, -⟩ := BusProgram.Yields.run (step.yields_opcode : StepM.Yields c _ _) bus state
  rw [perform_eq]
  cases ho : (step.opcode.runOn bus c state).value.1 with
  -- without an opcode the processor is as it was
  | error fault =>
    rw [runOn_bind_of_error (Prod.ext ho hc)]
    exact .inl ⟨fault, rfl⟩
  | ok opcode =>
    rw [runOn_bind_of_ok (Prod.ext ho hc)]
    refine .inr ⟨opcode, _, _, rfl, rfl, ?_⟩
    cases hr : (opcode.execute.runOn bus c (step.opcode.runOn bus c state).state).value.1 with
    | error fault =>
      exact .inl ⟨fault, rfl, opcode.stops_holds.run hr, opcode.stops_execute.run hr⟩
    | ok ended => exact .inr ⟨rfl, opcode.ends_execute.run hr⟩

end Armv4t

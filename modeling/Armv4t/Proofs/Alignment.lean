import Armv4t.Disassembly
import Armv4t.Proofs.Effects
import Armv4t.Proofs.Program

/-!
# Alignment

Instructions lie at multiples of their size, and every access is at a multiple of its own.  The
second part is local: each access masks its own address, whatever the state of the processor
(`Opcode.asks_execute`).  The first part is an invariant, `Cpu.AtBoundary`: the program counter and
the instruction set, which says what alignment means, change together on every way to end and to
stop.  The fetch of an instruction needs the invariant, and so does its disassembly; with both
parts, **no operation ever leaves an instruction boundary or makes a misaligned access**
(`runOperations_aligned`).
-/

namespace Armv4t

/-! ### Requests -/

namespace BusRequest

/-- The address of an access is a multiple of its size, and the target of a branch one of the size
of an instruction. -/
def IsAligned : BusRequest → Prop
  | read width address => address.toNat % width.bytes = 0
  | write width address _ => address.toNat % width.bytes = 0
  | branch target set => target.toNat % set.width.bytes = 0
  | charge _ => True

end BusRequest

namespace BusProgram

variable {α β : Type}

/-- Every request that the computation puts, on any branch, is aligned. -/
def AsksAligned : BusProgram α → Prop
  | pure _ => True
  | request asked resume => asked.IsAligned ∧ ∀ answer, (resume answer).AsksAligned
  | note _ rest => rest.AsksAligned

theorem asksAligned_bind {program : BusProgram α} {next : α → BusProgram β}
    (h : program.AsksAligned) (k : ∀ value, (next value).AsksAligned) :
    (program.bind next).AsksAligned := by
  -- along the tree: what follows a request is aligned for every answer
  induction program with
  | pure value => exact k value
  | request asked resume ih => exact ⟨h.1, fun answer => ih answer (h.2 answer)⟩
  | note record rest ih => exact ih h

/-- Aligned requests make aligned events on every bus. -/
theorem AsksAligned.run {program : BusProgram α} (h : program.AsksAligned) {σ : Type}
    (bus : Bus σ) (state : σ) :
    ∀ event ∈ (program.run bus state).events, event.request.IsAligned := by
  induction program generalizing state with
  | pure value => exact List.forall_mem_nil _
  | request asked resume ih =>
    refine List.forall_mem_cons.2 ⟨h.1, ?_⟩
    exact ih _ (h.2 _) _
  | note record rest ih => exact ih h state

end BusProgram

/-- The same of a computation on a given processor. -/
def CpuM.AsksAligned {α : Type} (c : Cpu) (x : CpuM α) : Prop :=
  (x.run c).AsksAligned

@[inherit_doc CpuM.AsksAligned]
def StepM.AsksAligned {α : Type} (c : Cpu) (x : StepM α) : Prop :=
  CpuM.AsksAligned c x.run

variable {α β : Type} {c : Cpu}

namespace CpuM

theorem asks_pure (a : α) : AsksAligned c (pure a) := trivial

theorem asks_bind {x : CpuM α} {f : α → CpuM β} (h : AsksAligned c x)
    (k : ∀ a d, AsksAligned d (f a)) : AsksAligned c (x >>= f) :=
  BusProgram.asksAligned_bind h fun ended => k ended.1 ended.2

theorem asks_get_bind {f : Cpu → CpuM β} (h : AsksAligned c (f c)) :
    AsksAligned c (get >>= f) := h

theorem asks_set (d : Cpu) : AsksAligned c (set d : CpuM Unit) := trivial

theorem asks_modify (f : Cpu → Cpu) : AsksAligned c (modify f : CpuM Unit) := trivial

theorem asks_note (record : LogRecord) : AsksAligned c (note record) := trivial

theorem asks_charge (cycles : Nat) : AsksAligned c (charge cycles) :=
  ⟨trivial, fun _ => trivial⟩

theorem asks_when {p : Prop} [Decidable p] {x : CpuM Unit} {f : Unit → CpuM β}
    (h : AsksAligned c x) (k : ∀ d, AsksAligned d (f ())) :
    AsksAligned c (if p then x >>= f else f ()) := by
  split_ifs
  · exact asks_bind h fun _ => k
  · exact k c

theorem asks_installPsr (psr : Psr) : AsksAligned c (installPsr psr) :=
  asks_get_bind (asks_when (asks_note _) fun _ => asks_set _)

theorem asks_writeRegister (register : Register) (value : Word) :
    AsksAligned c (writeRegister register value) :=
  asks_get_bind (asks_when (asks_note _) fun _ => asks_set _)

/-- A branch is announced at an instruction address. -/
theorem asks_branchTo (address : Word) : AsksAligned c (branchTo address) := by
  -- the target is a masked address
  refine asks_get_bind (asks_bind (asks_set _) fun _ _ => ?_)
  have htarget : (BusRequest.branch (c.instructionSet.align address) c.instructionSet).IsAligned :=
    (Width.align_eq_self_iff _ _).1 (Width.align_align _ _)
  exact asks_bind ⟨htarget, fun _ => trivial⟩ fun _ _ =>
    asks_bind (asks_charge 2) fun _ _ => asks_pure _

theorem asks_branchExchange (address : Word) : AsksAligned c (branchExchange address) :=
  asks_bind (asks_modify _) fun _ _ => asks_branchTo address

theorem asks_writeOrBranch (register : Register) (value : Word) :
    AsksAligned c (writeOrBranch register value) := by
  unfold writeOrBranch
  split_ifs
  · exact asks_branchTo value
  · exact asks_bind (asks_modify _) fun _ _ => asks_pure _

theorem asks_raise (exception : Exception) : AsksAligned c (raise exception) := by
  refine asks_get_bind (asks_bind (asks_note _) fun _ _ => ?_)
  -- the handler's set is in use before the branch, which masks by it
  refine asks_bind (asks_installPsr _) fun _ _ => asks_bind (asks_modify _) fun _ _ => ?_
  exact asks_bind (asks_branchTo _) fun _ _ => asks_pure _

end CpuM

namespace StepM

theorem asks_pure (a : α) : AsksAligned c (pure a) := trivial

theorem asks_throw (fault : Fault) : AsksAligned c (throw fault : StepM α) := trivial

theorem asks_bind {x : StepM α} {f : α → StepM β} (h : AsksAligned c x)
    (k : ∀ a d, AsksAligned d (f a)) : AsksAligned c (x >>= f) := by
  refine CpuM.asks_bind h ?_
  -- a fault puts no request any more
  rintro (fault | a) d
  · trivial
  · exact k a d

theorem asks_lift {x : CpuM α} (h : CpuM.AsksAligned c x) :
    AsksAligned c (liftM x : StepM α) :=
  BusProgram.asksAligned_bind h fun _ => trivial

theorem asks_get_bind {f : Cpu → StepM β} (h : AsksAligned c (f c)) :
    AsksAligned c (get >>= f) := h

theorem asks_set (d : Cpu) : AsksAligned c (set d : StepM Unit) := trivial

theorem asks_modify (f : Cpu → Cpu) : AsksAligned c (modify f : StepM Unit) := trivial

theorem asks_charge (cycles : Nat) : AsksAligned c (liftM (CpuM.charge cycles) : StepM Unit) :=
  asks_lift (CpuM.asks_charge cycles)

theorem asks_when {p : Prop} [Decidable p] {x : StepM Unit} {f : Unit → StepM β}
    (h : AsksAligned c x) (k : ∀ d, AsksAligned d (f ())) :
    AsksAligned c (if p then x >>= f else f ()) := by
  split_ifs
  · exact asks_bind h fun _ => k
  · exact k c

/-- An access at an aligned address is all that a read asks for. -/
theorem asks_read {width : Width} {address : Word} (h : width.align address = address) :
    AsksAligned c (read width address) := by
  refine ⟨(Width.align_eq_self_iff _ _).1 h, ?_⟩
  rintro (reason | value) <;> trivial

@[inherit_doc asks_read]
theorem asks_write {width : Width} {address : Word} (value : BitVec width.bits)
    (h : width.align address = address) : AsksAligned c (write width address value) := by
  refine ⟨(Width.align_eq_self_iff _ _).1 h, ?_⟩
  rintro (reason | ⟨⟩) <;> trivial

theorem asks_installPsrWord (word : Word) : AsksAligned c (installPsrWord word) := by
  unfold installPsrWord
  cases Psr.ofWord? word with
  | none => exact asks_throw _
  | some psr => exact asks_lift (CpuM.asks_installPsr psr)

theorem asks_restorePsr : AsksAligned c restorePsr := by
  refine asks_get_bind ?_
  cases c.spsr? with
  | none => exact asks_lift (CpuM.asks_note _)
  | some word => exact asks_installPsrWord word

theorem asks_checkRestore : AsksAligned c checkRestore := by
  refine asks_get_bind ?_
  cases c.spsr? with
  | none => exact asks_pure _
  | some word =>
    dsimp only
    split_ifs
    · exact asks_throw _
    · exact asks_pure _

end StepM

open StepM

/-! ### Accesses mask their addresses -/

theorem LoadFormat.asks_load (format : LoadFormat) (address : Word) :
    AsksAligned c (format.load address) := by
  unfold load
  cases format with
  | byte => exact asks_bind (asks_read rfl) fun _ _ => asks_pure _
  -- the other widths mask the address before they read
  | halfword => exact asks_bind (asks_read (Width.align_align _ _)) fun _ _ => asks_pure _
  | word => exact asks_bind (asks_read (Width.align_align _ _)) fun _ _ => asks_pure _
  | signedByte => exact asks_bind (asks_read rfl) fun _ _ => asks_pure _
  | signedHalfword =>
    dsimp only
    split_ifs with hodd
    · exact asks_bind (asks_read rfl) fun _ _ => asks_pure _
    · -- a halfword is read only at an even address
      have heven := (Width.align_halfword_eq_self_iff address).2 (Bool.eq_false_iff.2 hodd)
      exact asks_bind (asks_read heven) fun _ _ => asks_pure _

theorem SingleTransfer.asks_executeAt (transfer : SingleTransfer) (base offset : Word) :
    AsksAligned c (transfer.executeAt base offset) := by
  unfold executeAt
  dsimp only
  cases transfer.access with
  | load format =>
    -- whatever the word, it is used after the access
    refine asks_bind (format.asks_load _) fun value d => asks_bind (asks_charge 1) fun _ _ => ?_
    refine asks_when (asks_modify _) fun _ => ?_
    split_ifs
    · exact asks_lift (CpuM.asks_branchExchange value)
    · exact asks_lift (CpuM.asks_writeOrBranch _ value)
  | store width =>
    refine asks_get_bind (asks_bind (asks_write _ (Width.align_align _ _)) fun _ _ => ?_)
    exact asks_when (asks_modify _) fun _ => asks_pure _

theorem SingleTransfer.asks_execute (transfer : SingleTransfer) :
    AsksAligned c transfer.execute :=
  asks_get_bind (transfer.asks_executeAt _ _)

theorem Swap.asks_execute (swap : Swap) : AsksAligned c swap.execute := by
  have hexchange (byte : Bool) (address new : Word) :
      AsksAligned c (exchange byte address new) := by
    -- a byte lies at every address, a word at the masked one
    unfold exchange
    split_ifs
    · exact asks_bind (asks_read rfl) fun _ _ => asks_bind (asks_write _ rfl) fun _ _ => asks_pure _
    · refine asks_bind (asks_read (Width.align_align _ _)) fun _ _ => ?_
      exact asks_bind (asks_write _ (Width.align_align _ _)) fun _ _ => asks_pure _
  refine asks_get_bind (asks_bind (hexchange _ _ _) fun old _ => ?_)
  exact asks_bind (asks_charge 1) fun _ _ => asks_lift (CpuM.asks_writeOrBranch _ old)

namespace BlockTransfer

theorem asks_loadWords (write : Register → Word → Cpu → Cpu) (registers : List Register)
    (address : Word) : AsksAligned c (loadWords write registers address) := by
  -- each access masks the pointer for itself, and its steps do not matter
  induction registers generalizing c address with
  | nil => exact asks_pure _
  | cons register rest ih =>
    refine asks_bind (asks_read (Width.align_align _ _)) fun value _ => ?_
    exact asks_bind (asks_modify _) fun _ _ => ih _

theorem asks_storeWords (value : Register → Word) (registers : List Register) (address : Word) :
    AsksAligned c (storeWords value registers address) := by
  induction registers generalizing c address with
  | nil => exact asks_pure _
  | cons register rest ih =>
    exact asks_bind (asks_write _ (Width.align_align _ _)) fun _ _ => ih _

theorem asks_execute (transfer : BlockTransfer) : AsksAligned c transfer.execute := by
  refine asks_get_bind ?_
  by_cases hl : transfer.load = true
  · rw [if_pos hl]
    unfold executeLoad
    refine asks_when asks_checkRestore fun _ => ?_
    refine asks_bind (asks_loadWords _ _ _) fun _ _ => ?_
    by_cases hpc : transfer.lists .pc = true
    · rw [if_pos hpc]
      -- the word for the program counter is read like the others
      refine asks_bind (asks_read (Width.align_align _ _)) fun target _ => ?_
      refine asks_bind (asks_charge 1) fun _ _ => asks_bind (asks_modify _) fun _ _ => ?_
      exact asks_when asks_restorePsr fun _ => asks_lift (CpuM.asks_branchTo target)
    · rw [if_neg hpc]
      exact asks_bind (asks_charge 1) fun _ _ => asks_bind (asks_modify _) fun _ _ => asks_pure _
  · rw [if_neg hl]
    refine asks_get_bind (asks_bind (asks_storeWords _ _ _) fun _ _ => ?_)
    exact asks_when (asks_modify _) fun _ => asks_pure _

end BlockTransfer

/-! ### Instructions -/

theorem DataProcessing.asks_execute (instruction : DataProcessing) :
    AsksAligned c instruction.execute := by
  unfold execute
  refine asks_when (asks_charge 1) fun _ => asks_get_bind ?_
  by_cases ht : instruction.operation.isTest = true
  · rw [if_pos ht]
    exact asks_bind (asks_modify _) fun _ _ => asks_pure _
  · rw [if_neg ht]
    by_cases hd : instruction.destination = .pc
    · rw [if_pos hd]
      -- restoring the status asks for nothing, and the branch masks by the set restored
      exact asks_when asks_restorePsr fun _ => asks_lift (CpuM.asks_branchTo _)
    · rw [if_neg hd]
      refine asks_bind (asks_modify _) fun _ _ => ?_
      exact asks_when (asks_modify _) fun _ => asks_pure _

theorem Multiply.asks_execute (operation : Multiply) : CpuM.AsksAligned c operation.execute := by
  refine CpuM.asks_get_bind (CpuM.asks_bind (CpuM.asks_charge _) fun _ _ => ?_)
  refine CpuM.asks_bind (CpuM.asks_writeRegister _ _) fun _ _ => ?_
  exact CpuM.asks_when (CpuM.asks_modify _) fun _ => CpuM.asks_pure _

theorem LongMultiply.asks_execute (operation : LongMultiply) :
    CpuM.AsksAligned c operation.execute := by
  refine CpuM.asks_get_bind (CpuM.asks_bind (CpuM.asks_charge _) fun _ _ => ?_)
  refine CpuM.asks_bind (CpuM.asks_writeRegister _ _) fun _ _ => ?_
  refine CpuM.asks_bind (CpuM.asks_writeRegister _ _) fun _ _ => ?_
  exact CpuM.asks_when (CpuM.asks_modify _) fun _ => CpuM.asks_pure _

theorem asks_readStatus (saved : Bool) (destination : Register) :
    CpuM.AsksAligned c (readStatus saved destination) := by
  have hwrite {d : Cpu} (value : Word) : CpuM.AsksAligned d
      (CpuM.writeRegister destination value >>= fun _ => pure Flow.next) :=
    CpuM.asks_bind (CpuM.asks_writeRegister _ _) fun _ _ => CpuM.asks_pure _
  unfold readStatus
  refine CpuM.asks_get_bind ?_
  dsimp only
  split_ifs
  · cases c.spsr? with
    | some word => exact hwrite word
    | none => exact CpuM.asks_bind (CpuM.asks_note _) fun _ _ => hwrite _
  · exact hwrite _

theorem StatusWrite.asks_execute (write : StatusWrite) : AsksAligned c write.execute := by
  unfold execute
  refine asks_get_bind ?_
  dsimp only
  split_ifs
  · cases c.spsr? with
    | some word => exact asks_bind (asks_set _) fun _ _ => asks_pure Flow.next
    | none => exact asks_bind (asks_lift (CpuM.asks_note _)) fun _ _ => asks_pure _
  · exact asks_bind (asks_installPsrWord _) fun _ _ => asks_pure _

theorem asks_softwareInterrupt : AsksAligned c (do
    CpuM.raise .softwareInterrupt
    return Flow.jump) :=
  asks_bind (asks_lift (CpuM.asks_raise _)) fun _ _ => asks_pure _

theorem ArmInstruction.asks_execute (instruction : ArmInstruction) :
    AsksAligned c instruction.execute := by
  cases instruction with
  | dataProcessing instruction => exact instruction.asks_execute
  | readStatus saved destination => exact asks_lift (asks_readStatus saved destination)
  | writeStatus write => exact write.asks_execute
  | multiply operation => exact asks_lift operation.asks_execute
  | multiplyLong operation => exact asks_lift operation.asks_execute
  | swap operation => exact operation.asks_execute
  | branchExchange target => exact asks_get_bind (asks_lift (CpuM.asks_branchExchange _))
  | singleTransfer transfer => exact transfer.asks_execute
  | blockTransfer transfer => exact transfer.asks_execute
  | branch link offset =>
    refine asks_lift (CpuM.asks_get_bind ?_)
    exact CpuM.asks_when (CpuM.asks_modify _) fun _ => CpuM.asks_branchTo _
  | softwareInterrupt comment => exact asks_softwareInterrupt

namespace ThumbInstruction

theorem asks_writeResult (destination : LowRegister) (result : AluResult) :
    CpuM.AsksAligned c (writeResult destination result) :=
  CpuM.asks_bind (CpuM.asks_modify _) fun _ _ => CpuM.asks_pure _

theorem asks_finish (operation : AluOperation) (destination : LowRegister) (result : AluResult) :
    CpuM.AsksAligned c (finish operation destination result) := by
  unfold finish
  split_ifs
  · exact CpuM.asks_bind (CpuM.asks_modify _) fun _ _ => CpuM.asks_pure _
  · exact asks_writeResult _ _

theorem asks_executeAlu (operation : RegisterOperation) (source destination : LowRegister) :
    CpuM.AsksAligned c (executeAlu operation source destination) := by
  refine CpuM.asks_get_bind ?_
  cases operation with
  | process operation => exact asks_finish _ _ _
  | shift kind => exact CpuM.asks_bind (CpuM.asks_charge 1) fun _ _ => asks_writeResult _ _
  | negate => exact asks_writeResult _ _
  | multiply => exact Multiply.asks_execute _

theorem asks_executeHigh (operation : HighOperation) (source destination : Register) :
    CpuM.AsksAligned c (executeHigh operation source destination) := by
  refine CpuM.asks_get_bind ?_
  cases operation with
  | add => exact CpuM.asks_writeOrBranch _ _
  | compare => exact CpuM.asks_bind (CpuM.asks_modify _) fun _ _ => CpuM.asks_pure _
  | move => exact CpuM.asks_writeOrBranch _ _
  | exchange => exact CpuM.asks_branchExchange _

theorem asks_execute (instruction : ThumbInstruction) : AsksAligned c instruction.execute := by
  cases instruction with
  | shiftedMove kind amount source destination =>
    exact asks_get_bind (asks_lift (asks_writeResult _ _))
  | addSubtract subtract operand source destination =>
    exact asks_get_bind (asks_lift (asks_writeResult _ _))
  | immediate operation destination value => exact asks_get_bind (asks_lift (asks_finish _ _ _))
  | alu operation source destination => exact asks_lift (asks_executeAlu _ _ _)
  | highRegister operation source destination => exact asks_lift (asks_executeHigh _ _ _)
  | pcRelativeLoad data offset => exact asks_get_bind (SingleTransfer.asks_executeAt _ _ _)
  | registerOffset access data base offset => exact SingleTransfer.asks_execute _
  | immediateOffset width load data base offset => exact SingleTransfer.asks_execute _
  | spRelative load data offset => exact SingleTransfer.asks_execute _
  | loadAddress fromSp destination offset =>
    exact asks_get_bind (asks_bind (asks_set _) fun _ _ => asks_pure _)
  | adjustStack subtract amount =>
    exact asks_get_bind (asks_bind (asks_set _) fun _ _ => asks_pure _)
  | push extra list => exact BlockTransfer.asks_execute _
  | pop extra list => exact BlockTransfer.asks_execute _
  | multiple load base list => exact BlockTransfer.asks_execute _
  | conditionalBranch condition offset =>
    refine asks_get_bind ?_
    split_ifs
    · exact asks_lift (CpuM.asks_branchTo _)
    · exact asks_pure _
  | softwareInterrupt comment => exact asks_softwareInterrupt
  | branch offset => exact asks_get_bind (asks_lift (CpuM.asks_branchTo _))
  | callFirst offset => exact asks_bind (asks_modify _) fun _ _ => asks_pure _
  | callSecond offset =>
    exact asks_get_bind (asks_bind (asks_set _) fun _ _ => asks_lift (CpuM.asks_branchTo _))

end ThumbInstruction

theorem asks_proceed (set : InstructionSet) (flow : Flow) :
    AsksAligned c (liftM (proceed set flow) : StepM Unit) := by
  cases flow with
  | next => exact asks_lift (CpuM.asks_modify _)
  | jump => exact asks_lift (CpuM.asks_pure _)

/-- Executing an opcode asks for aligned accesses only, whatever the state of the processor. -/
theorem Opcode.asks_execute (opcode : Opcode) : AsksAligned c opcode.execute := by
  cases opcode with
  | arm word =>
    refine asks_bind (asks_charge 1) fun _ d => asks_get_bind ?_
    dsimp only
    split_ifs
    · refine asks_bind (asks_lift (CpuM.asks_note _)) fun _ _ => ?_
      cases ArmInstruction.ofOpcode? word with
      | none => exact asks_throw _
      | some instruction =>
        dsimp only
        cases instruction.refusal? with
        | some reason => exact asks_throw _
        -- the instruction is aligned for itself, and moving on asks for nothing
        | none => exact asks_bind instruction.asks_execute fun flow _ => asks_proceed .arm flow
    · exact asks_bind (asks_lift (CpuM.asks_note _)) fun _ _ => asks_proceed .arm .next
  | thumb halfword =>
    refine asks_bind (asks_charge 1) fun _ d => asks_get_bind ?_
    refine asks_bind (asks_lift (CpuM.asks_note _)) fun _ _ => ?_
    cases ThumbInstruction.ofOpcode? halfword with
    | none => exact asks_throw _
    | some instruction =>
      dsimp only
      cases instruction.refusal? with
      | some reason => exact asks_throw _
      | none => exact asks_bind instruction.asks_execute fun flow _ => asks_proceed .thumb flow

/-! ### Instruction boundaries -/

/-- The program counter is at a boundary between instructions of the set in use. -/
def Cpu.AtBoundary (cpu : Cpu) : Prop :=
  cpu.instructionSet.align cpu.pc = cpu.pc

theorem InstructionSet.align_size (set : InstructionSet) : set.align set.size = set.size := by
  cases set <;> rfl

namespace Cpu

/-- A branch leads to a boundary of the set that is then in use. -/
theorem atBoundary_branched (cpu : Cpu) (address : Word) : (cpu.branched address).AtBoundary :=
  Width.align_add (Width.align_align _ _) cpu.instructionSet.align_lookahead

theorem atBoundary_ofConfig (config : Config) : (ofConfig config).AtBoundary :=
  Width.align_align _ _

theorem AtBoundary.of_eq {d : Cpu} (h : c.AtBoundary)
    (hset : d.instructionSet = c.instructionSet) (hpc : d.pc = c.pc) : d.AtBoundary := by
  unfold AtBoundary
  rw [hset, hpc]
  exact h

theorem AtBoundary.advanced (h : c.AtBoundary) : (c.advanced c.instructionSet).AtBoundary :=
  Width.align_add h c.instructionSet.align_size

end Cpu

/-- An instruction that goes on with the next one leaves the program counter at a boundary, as a
status write does not change the instruction set. -/
theorem InstructionEnd.atBoundary {allows : Effect → Prop} {events : List BusEvent} {d : Cpu}
    (h : InstructionEnd allows c events .next d) (hc : c.AtBoundary) : d.AtBoundary := by
  have hset : d.instructionSet = c.instructionSet := h.instructionSet_eq fun hj => nomatch hj
  cases h with
  | next hq h =>
    -- a plain write of the program counter keeps to boundaries, and the others leave it
    rcases h.pc with hpc | ⟨-, hpc⟩
    · exact hc.of_eq hset hpc
    · unfold Cpu.AtBoundary
      rw [hset]
      exact hpc
  | status hq ha hp => exact hc.of_eq hset (Cpu.pc_withPsr _ _)
  | saved hq ha value => exact hc.of_eq hset rfl

variable {opcode : Opcode} {events : List BusEvent} {d : Cpu}

theorem OpcodeEnd.atBoundary (h : OpcodeEnd opcode c events d)
    (hs : opcode.instructionSet = c.instructionSet) (hc : c.AtBoundary) : d.AtBoundary := by
  cases h with
  | skipped h =>
    -- an opcode is skipped in the set in use
    rw [hs]
    exact hc.advanced
  | @next before e h =>
    have hset : e.instructionSet = c.instructionSet := h.instructionSet_eq fun hj => nomatch hj
    -- what was a boundary in the old set is one in the new, as they are the same
    rw [hs, ← hset]
    exact (h.atBoundary hc).advanced
  | jump h =>
    cases h with
    | jump hq h address => exact Cpu.atBoundary_branched _ address

theorem OpcodeStop.atBoundary {fault : Fault} (h : OpcodeStop opcode c events fault d)
    (hc : c.AtBoundary) : d.AtBoundary := by
  obtain ⟨⟨hpc, hcpsr, -⟩, -⟩ := h.keeps
  -- a fault leaves the program counter and the instruction set
  exact hc.of_eq (congrArg Psr.instructionSet hcpsr) hpc

/-- The opcode that is fetched is one of the instruction set in use. -/
theorem instructionSet_fetch {σ : Type} {bus : Bus σ} {state : σ}
    (h : (fetch.runOn bus c state).value.1 = .ok opcode) :
    opcode.instructionSet = c.instructionSet := by
  have hfetch : StepM.Ends c fetch fun _ opcode _ => opcode.instructionSet = c.instructionSet := by
    refine ends_get_bind ?_
    cases hs : c.instructionSet with
    | arm => exact ends_bind (ends_read _ _) fun _ _ _ _ => ends_pure rfl
    | thumb => exact ends_bind (ends_read _ _) fun _ _ _ _ => ends_pure rfl
  exact hfetch.run h

/-- At a boundary, the fetch of an instruction is an aligned access. -/
theorem asks_fetch (hc : c.AtBoundary) : AsksAligned c fetch := by
  have hfetch : c.instructionSet.width.align c.fetchAddress = c.fetchAddress :=
    Cpu.align_fetchAddress hc
  refine asks_get_bind ?_
  cases hs : c.instructionSet with
  -- the width of an instruction in the set is that of the access
  | arm =>
    rw [hs] at hfetch
    exact asks_bind (asks_read hfetch) fun _ _ => asks_pure _
  | thumb =>
    rw [hs] at hfetch
    exact asks_bind (asks_read hfetch) fun _ _ => asks_pure _

theorem asks_step (hc : c.AtBoundary) : AsksAligned c step := by
  rw [← fetch_execute]
  exact asks_bind (asks_fetch hc) fun opcode _ => opcode.asks_execute

/-- So is that of a disassembly; the second half of a call is read at the next boundary. -/
theorem asks_disassembleNext (hc : c.AtBoundary) : AsksAligned c disassembleNext := by
  have hfetch : c.instructionSet.width.align c.fetchAddress = c.fetchAddress :=
    Cpu.align_fetchAddress hc
  refine asks_get_bind ?_
  dsimp only
  cases hs : c.instructionSet with
  | arm =>
    rw [hs] at hfetch
    exact asks_bind (asks_read hfetch) fun _ _ => asks_pure _
  | thumb =>
    rw [hs] at hfetch
    have hsecond : Width.halfword.align (c.fetchAddress + 2) = c.fetchAddress + 2 :=
      Width.align_add hfetch rfl
    -- whether the opcode is the first half of a call, it is read already
    refine asks_bind (asks_read hfetch) fun first _ => ?_
    split_ifs
    · refine asks_bind (asks_read hsecond) fun second _ => ?_
      cases callTarget? first second c.fetchAddress with
      | some target => exact asks_pure _
      | none => exact asks_pure _
    · exact asks_pure _

/-- A disassembly leaves the processor as it is. -/
theorem ensures_disassembleNext : StepM.Ensures c disassembleNext fun _ d => d = c := by
  have hread {α : Type} {width : Width} {address : Word} {f : BitVec width.bits → StepM α}
      (k : ∀ value, StepM.Ensures c (f value) fun _ d => d = c) :
      StepM.Ensures c (StepM.read width address >>= f) fun _ d => d = c := by
    rintro (reason | value)
    · rfl
    · exact k value
  refine StepM.ensures_get_bind ?_
  dsimp only
  cases c.instructionSet with
  | arm => exact hread fun _ => StepM.ensures_pure rfl
  | thumb =>
    refine hread fun first => ?_
    split_ifs
    · refine hread fun second => ?_
      cases callTarget? first second c.fetchAddress with
      | some target => exact StepM.ensures_pure rfl
      | none => exact StepM.ensures_pure rfl
    · exact StepM.ensures_pure rfl

/-! ### Operations -/

/-- The operations that take a processor through its program. -/
inductive Operation where
  /-- Fetch the next instruction and execute it. -/
  | step
  | raise (exception : Exception)
  | requestInterrupt (line : InterruptLine)
  | reset
  /-- Disassemble the next instruction. -/
  | disassemble
deriving DecidableEq, Repr

/-- Performs an operation. -/
def Operation.perform : Operation → StepM Unit
  | step => Armv4t.step
  | raise exception => CpuM.raise exception
  | requestInterrupt line => do
    let _ ← CpuM.requestInterrupt line
  | reset => set Cpu.reset
  | disassemble => do
    let _ ← disassembleNext

/-- Performs operations one after the other, going on after a fault. -/
def runOperations {σ : Type} (bus : Bus σ) (operations : List Operation) (cpu : Cpu) (state : σ) :
    BusRun σ (List (Except Fault Unit) × Cpu) :=
  ((operations.mapM fun (operation : Operation) => operation.perform.run).run cpu).run bus state

namespace Operation

theorem asks_perform (operation : Operation) (hc : c.AtBoundary) :
    AsksAligned c operation.perform := by
  cases operation with
  | step => exact asks_step hc
  | raise exception => exact asks_lift (CpuM.asks_raise exception)
  | requestInterrupt line =>
    -- an interrupt that is held back asks for nothing
    refine asks_bind (asks_lift (CpuM.asks_get_bind ?_)) fun _ _ => asks_pure _
    split_ifs
    · exact CpuM.asks_pure _
    · exact CpuM.asks_bind (CpuM.asks_raise _) fun _ _ => CpuM.asks_pure _
  | reset => exact asks_set _
  | disassemble => exact asks_bind (asks_disassembleNext hc) fun _ _ => asks_pure _

/-- Every operation leaves the processor at a boundary, also one that fails. -/
theorem atBoundary_perform (operation : Operation) (hc : c.AtBoundary) {σ : Type} (bus : Bus σ)
    (state : σ) : (operation.perform.runOn bus c state).value.2.AtBoundary := by
  have hentered (exception : Exception) : (c.entered exception).AtBoundary :=
    (c.handling exception).atBoundary_branched exception.vector
  cases operation with
  | step =>
    -- the fetch fails, the opcode stops, or it comes to its end
    rcases ProgramStep.fetched.perform_cases c bus state with
      ⟨fault, hr⟩ | ⟨opcode, before, events, ho, -, ⟨fault, -, -, hstop⟩ | ⟨-, hend⟩⟩
    · have hended : (step.perform.runOn bus c state).value.2 = c := congrArg Prod.snd hr
      rw [hended]
      exact hc
    · exact hstop.atBoundary hc
    · exact hend.atBoundary (instructionSet_fetch ho) hc
  | raise exception =>
    have hraise : StepM.Ensures c (raise exception).perform fun _ d => d.AtBoundary := by
      refine StepM.ensures_lift (CpuM.ensures_raise exception) ?_
      rintro _ _ rfl
      exact hentered exception
    exact hraise.run bus state
  | requestInterrupt line =>
    have hrequest : CpuM.Ensures c (CpuM.requestInterrupt line) fun _ d => d.AtBoundary := by
      refine CpuM.ensures_get_bind ?_
      split_ifs
      · exact CpuM.ensures_pure hc
      · refine CpuM.ensures_bind (CpuM.ensures_raise line.exception) ?_
        rintro _ _ rfl
        exact CpuM.ensures_pure (hentered _)
    have hperform : StepM.Ensures c (requestInterrupt line).perform fun _ d => d.AtBoundary :=
      StepM.ensures_lift_bind hrequest fun _ _ hd => StepM.ensures_pure hd
    exact hperform.run bus state
  | reset => exact Cpu.atBoundary_ofConfig .default
  | disassemble =>
    -- both ways, the processor is as it was
    have hperform : StepM.Ensures c disassemble.perform fun _ d => d = c :=
      StepM.ensures_bind ensures_disassembleNext (fun _ _ hd => StepM.ensures_pure hd)
        fun _ _ hd => hd
    rw [show (disassemble.perform.runOn bus c state).value.2 = c from hperform.run bus state]
    exact hc

end Operation

/-- A run of operations is a run of the first and then of the others. -/
theorem runOperations_cons {σ : Type} (bus : Bus σ) (operation : Operation)
    (rest : List Operation) (c : Cpu) (state : σ) :
    let first := operation.perform.runOn bus c state
    let others := runOperations bus rest first.value.2 first.state
    (runOperations bus (operation :: rest) c state).value.2 = others.value.2 ∧
      (runOperations bus (operation :: rest) c state).events = first.events ++ others.events := by
  intro first others
  have hnil : others.events ++ [] = others.events := List.append_nil _
  unfold runOperations
  rw [List.mapM_cons, CpuM.run_bind, CpuM.run_bind]
  exact ⟨rfl, congrArg (first.events ++ ·) hnil⟩

/-- From a boundary, a run leads to a boundary and makes aligned accesses, by induction on the
operations. -/
theorem atBoundary_runOperations (hc : c.AtBoundary) {σ : Type} (bus : Bus σ)
    (operations : List Operation) (state : σ) :
    (runOperations bus operations c state).value.2.AtBoundary ∧
      ∀ event ∈ (runOperations bus operations c state).events, event.request.IsAligned := by
  induction operations generalizing c state with
  | nil => exact ⟨hc, List.forall_mem_nil _⟩
  | cons operation rest ih =>
    obtain ⟨hvalue, hevents⟩ := runOperations_cons bus operation rest c state
    have hfirst : ∀ event ∈ (operation.perform.runOn bus c state).events, event.request.IsAligned :=
      BusProgram.AsksAligned.run (operation.asks_perform hc) bus state
    -- the invariant at the end of the first operation is what the others start from
    obtain ⟨hrest, haligned⟩ := ih (operation.atBoundary_perform hc bus state)
      (operation.perform.runOn bus c state).state
    rw [hvalue, hevents]
    exact ⟨hrest, List.forall_mem_append.2 ⟨hfirst, haligned⟩⟩

/-- **The processor stays on instruction boundaries.**  Take any configuration, any bus and any
sequence of operations: steps that succeed or fail, exceptions, interrupt requests, resets and
disassemblies.  At its end the program counter and the fetch address are multiples of the size of an
instruction in the set in use, and throughout the run every access over the bus, instruction fetches
included, is at a multiple of its size, and every branch announced to an instruction address. -/
theorem runOperations_aligned (config : Config) (operations : List Operation) {σ : Type}
    (bus : Bus σ) (state : σ) :
    let run := runOperations bus operations (.ofConfig config) state
    let ended := run.value.2
    ended.pc.toNat % ended.instructionSet.width.bytes = 0 ∧
      ended.fetchAddress.toNat % ended.instructionSet.width.bytes = 0 ∧
      ∀ event ∈ run.events, event.request.IsAligned := by
  intro run ended
  obtain ⟨hended, hevents⟩ :=
    atBoundary_runOperations (Cpu.atBoundary_ofConfig config) bus operations state
  -- the fetch address lies a fixed number of instructions behind
  have hfetch : ended.instructionSet.align ended.fetchAddress = ended.fetchAddress :=
    Cpu.align_fetchAddress hended
  refine ⟨?_, ?_, hevents⟩
  · exact (Width.align_eq_self_iff _ _).1 hended
  · exact (Width.align_eq_self_iff _ _).1 hfetch

end Armv4t

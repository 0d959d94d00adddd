import Armv4t.Config
import Armv4t.Cpu.Lemmas
import Armv4t.Memory
import Armv4t.Proofs.Encoding
import Armv4t.Proofs.Execution

/-!
# Entering exceptions and returning from them

`Cpu.entered` is the processor in the handler of an exception and `Cpu.returned` the processor after
the handler's return instruction; `CpuM.ensures_raise` and `ensures_return` say that the operations
lead there.  Handlers that run in modes of their own nest: **entering any exceptions one inside the
other and returning from all of them restores the interrupted processor** (`unwind_restores`).  Only
the link registers and saved statuses of the handlers' modes are lost.
-/

namespace Armv4t

/-! ### Entry -/

namespace Exception

theorem bank_mode_ne_user (exception : Exception) : exception.mode.bank ≠ .user := by
  cases exception <;> decide

/-- Different handler modes have different banks. -/
theorem mode_eq_of_bank_eq {e f : Exception} (h : e.mode.bank = f.mode.bank) :
    e.mode = f.mode := by
  revert h
  cases e <;> cases f <;> decide

/-- The status in which a handler starts. -/
def handlerPsr (exception : Exception) (psr : Psr) : Psr :=
  { psr with
    mode := exception.mode
    instructionSet := .arm
    irqDisable := true
    fiqDisable := exception.disablesFiq || psr.fiqDisable }

end Exception

namespace Cpu

variable (cpu : Cpu) (exception : Exception)

/-- What entry leaves in the link register. -/
def returnAddress : Word :=
  cpu.fetchAddress + exception.returnOffset cpu.instructionSet

/-- The processor at the start of a handler. -/
def entered : Cpu :=
  -- link register and saved status are the handler's, so they are written in its mode
  { ((cpu.withPsr (exception.handlerPsr cpu.cpsr)).write .lr
      (cpu.returnAddress exception)).withSpsr cpu.cpsr.toWord with
    pc := InstructionSet.arm.align exception.vector + InstructionSet.arm.lookahead }

/-- Entry changes the link register of the handler's bank and no other register. -/
theorem readIn_entered (mode : Mode) {register : Register} (h : register ≠ .pc) :
    (cpu.entered exception).readIn mode register =
      if register = .lr ∧ mode.bank = exception.mode.bank then cpu.returnAddress exception
      else cpu.readIn mode register := by
  unfold entered
  rw [readIn_withPc _ _ _ h, readIn_withSpsr, readIn_write _ _ (by decide), readIn_withPsr]
  exact if_congr (and_congr_right fun _ => eq_comm) rfl rfl

/-- Entry keeps the old status in the handler's bank. -/
theorem get_spsrs_entered (bank : Bank) :
    (cpu.entered exception).spsrs.get bank =
      if bank = exception.mode.bank then cpu.cpsr.toWord else cpu.spsrs.get bank := by
  have h := get_spsrs_withSpsr ((cpu.withPsr (exception.handlerPsr cpu.cpsr)).write .lr
    (cpu.returnAddress exception)) cpu.cpsr.toWord bank
  rw [spsrs_write, spsrs_withPsr, mode_write, mode_withPsr] at h
  refine h.trans (if_congr (and_iff_left_of_imp ?_) rfl rfl)
  rintro rfl
  exact exception.bank_mode_ne_user

end Cpu

variable {c : Cpu}

/-- Raising an exception leads to the start of its handler. -/
theorem CpuM.ensures_raise (exception : Exception) :
    Ensures c (raise exception) fun _ d => d = c.entered exception := by
  unfold raise
  refine ensures_get_bind (ensures_bind_eq (ensures_note _) fun _ => ?_)
  refine ensures_bind_eq (ensures_installPsr _) fun _ => ?_
  refine ensures_modify_bind ?_
  refine ensures_bind (ensures_branchTo _) ?_
  rintro _ d ⟨_, rfl⟩
  exact ensures_pure rfl

/-! ### Return -/

namespace Exception

/-- The instruction that ends a handler: a move of the link register to the program counter, or a
subtraction of the distance by which it lies beyond the instruction to return to.  Either restores
the saved status. -/
def returnInstruction : Exception → DataProcessing
  -- MOVS PC, LR
  | reset | undefined | softwareInterrupt =>
    ⟨.mov, true, .pc, .low .unused, .byImmediate .lr .lsl 0⟩
  -- SUBS PC, LR, with the distance
  | prefetchAbort | interruptRequest | fastInterruptRequest =>
    ⟨.sub, true, .pc, .lr, .immediate 4 0⟩
  | dataAbort => ⟨.sub, true, .pc, .lr, .immediate 8 0⟩

/-- The opcode of the return instruction. -/
def returnOpcode (exception : Exception) : Word :=
  (ArmInstruction.dataProcessing exception.returnInstruction).opcode

example : returnOpcode .softwareInterrupt = 0xE1B0F00E := by decide

example : returnOpcode .interruptRequest = 0xE25EF004 := by decide

/-- What the return instruction takes off the link register. -/
def returnDistance : Exception → Word
  | reset | undefined | softwareInterrupt => 0
  | prefetchAbort | interruptRequest | fastInterruptRequest => 4
  | dataAbort => 8

/-- How far beyond the interrupted instruction the return goes on: after an instruction that has
raised its exception itself. -/
def returnSkip (exception : Exception) (set : InstructionSet) : Word :=
  match exception with
  | undefined | softwareInterrupt => set.size
  | _ => 0

theorem returnOffset_eq (exception : Exception) (set : InstructionSet) :
    exception.returnOffset set = exception.returnSkip set + exception.returnDistance := by
  cases exception <;> cases set <;> rfl

theorem value_returnInstruction (exception : Exception) (cpu : Cpu) :
    (exception.returnInstruction.result cpu).value = cpu.read .lr - exception.returnDistance := by
  cases exception with
  | reset | undefined | softwareInterrupt => exact (BitVec.sub_zero _).symm
  | _ => exact value_subtractWithCarry_true _ _

end Exception

/-- The processor after the return instruction of a handler that restores a status. -/
def Cpu.returned (cpu : Cpu) (exception : Exception) (psr : Psr) : Cpu :=
  { cpu.withPsr psr with
    pc := psr.instructionSet.align (cpu.read .lr - exception.returnDistance) +
      psr.instructionSet.lookahead }

/-- Executing the return instruction of a handler whose saved status is valid. -/
theorem ensures_return (exception : Exception) {psr : Psr} (h : c.spsr? = some psr.toWord) :
    StepM.Ensures c (executeArm exception.returnOpcode) fun result d =>
      result = .ok () ∧ d = c.returned exception psr := by
  have hset : exception.returnInstruction.setFlags = true := by
    cases exception <;> rfl
  have hc : (ArmInstruction.condition exception.returnOpcode).holds c.cpsr.flags = true := by
    rw [Exception.returnOpcode, ArmInstruction.condition_opcode]
    rfl
  have hdecode := ArmInstruction.ofOpcode?_opcode
    (show (ArmInstruction.dataProcessing exception.returnInstruction).Encodable from fun _ => hset)
  -- the instructions differ in operation and operands only: each writes the program counter and
  -- sets the flags, and none shifts by a register
  have hexecute : StepM.Ensures c exception.returnInstruction.execute fun result d =>
      result = .ok .jump ∧ d = c.returned exception psr := by
    have hi : exception.returnInstruction.second.isByRegister = false := by
      cases exception <;> rfl
    have ht : exception.returnInstruction.operation.isTest = false := by
      cases exception <;> rfl
    have hd : exception.returnInstruction.destination = .pc := by
      cases exception <;> rfl
    unfold DataProcessing.execute
    simp only [hi, ht, hd, hset, Bool.false_eq_true, if_true, if_false]
    refine StepM.ensures_get_bind ?_
    refine StepM.ensures_bind_ok (StepM.ensures_restorePsr h) ?_
    refine StepM.ensures_lift (CpuM.ensures_branchTo _) ?_
    rintro _ d ⟨rfl, rfl⟩
    refine ⟨rfl, ?_⟩
    rw [exception.value_returnInstruction]
    rfl
  have hproceed : StepM.Ensures c
      (do proceed .arm (← exception.returnInstruction.execute) : StepM Unit) fun result d =>
        result = .ok () ∧ d = c.returned exception psr :=
    StepM.ensures_bind_ok hexecute ⟨rfl, rfl⟩
  change ((executeArm exception.returnOpcode).run.run c).Always _
  rw [run_executeArm hc hdecode]
  exact fun _ => hproceed

/-! ### Nested handlers -/

/-- Raises exceptions one after the other, each in the handler of the one before. -/
def raiseAll : List Exception → StepM Unit
  | [] => return ()
  | exception :: rest => do
    CpuM.raise exception
    raiseAll rest

/-- Executes the return instructions of handlers one after the other. -/
def returnAll : List Exception → StepM Unit
  | [] => return ()
  | exception :: rest => do
    executeArm exception.returnOpcode
    returnAll rest

/-- Raises exceptions one inside the other and returns from each when those inside it are done. -/
def nested : List Exception → StepM Unit
  | [] => return ()
  | exception :: rest => do
    CpuM.raise exception
    nested rest
    executeArm exception.returnOpcode

theorem returnAll_append (exceptions : List Exception) (last : Exception) :
    returnAll (exceptions ++ [last]) = (do
      returnAll exceptions
      executeArm last.returnOpcode) := by
  induction exceptions with
  | nil => simp [returnAll]
  | cons exception rest ih => simp [returnAll, ih]

/-- Raising all exceptions and then returning from all handlers, the last first, nests them. -/
theorem raiseAll_returnAll (exceptions : List Exception) :
    (do raiseAll exceptions; returnAll exceptions.reverse) = nested exceptions := by
  induction exceptions with
  | nil => rfl
  | cons exception rest ih =>
    rw [nested, ← ih, List.reverse_cons, returnAll_append]
    simp [raiseAll]

/-- A processor after handlers that have returned, beside the processor before: the status is the
same, and so are the registers and saved statuses but those that belong to the handlers. -/
structure Restored (exceptions : List Exception) (c d : Cpu) : Prop where
  cpsr : d.cpsr = c.cpsr
  readIn (mode : Mode) {register : Register} (hr : register ≠ .pc)
    (hl : register = .lr → ∀ e ∈ exceptions, mode.bank ≠ e.mode.bank) :
    d.readIn mode register = c.readIn mode register
  spsrs (bank : Bank) (hb : ∀ e ∈ exceptions, bank ≠ e.mode.bank) :
    d.spsrs.get bank = c.spsrs.get bank

/-- The end of a handler finds the status and the return address that entry has kept, as long as the
handlers inside it have run in other modes. -/
theorem ensures_return_restored {e : Exception} {rest : List Exception} {d : Cpu}
    (hd : ∀ f ∈ rest, e.mode.bank ≠ f.mode.bank) (h : Restored rest (c.entered e) d) :
    StepM.Ensures d (executeArm e.returnOpcode) fun result f =>
      result = .ok () ∧ Restored (e :: rest) c f ∧
        f.fetchAddress = c.instructionSet.align
          (c.fetchAddress + e.returnSkip c.instructionSet) := by
  -- the handlers inside have come back to this one's mode and have not touched its bank
  have hmode : d.mode = e.mode := congrArg Psr.mode h.cpsr
  have hspsr : d.spsr? = some c.cpsr.toWord := by
    unfold Cpu.spsr?
    rw [hmode, if_neg e.bank_mode_ne_user, h.spsrs _ hd, Cpu.get_spsrs_entered, if_pos rfl]
  have hlr : d.read .lr = c.returnAddress e := by
    rw [← Cpu.readIn_mode, hmode, h.readIn e.mode (by decide) fun _ => hd,
      Cpu.readIn_entered _ _ _ (by decide), if_pos ⟨rfl, rfl⟩]
  refine CpuM.Ensures.mono (ensures_return e hspsr) ?_
  rintro result f ⟨hresult, rfl⟩
  have hrestored : Restored (e :: rest) c (d.returned e c.cpsr) := by
    constructor
    · rfl
    · intro mode register hr hl
      have hinside : register = .lr → ∀ f ∈ rest, mode.bank ≠ f.mode.bank :=
        fun he f hf => hl he f (List.mem_cons_of_mem _ hf)
      have hown : ¬(register = .lr ∧ mode.bank = e.mode.bank) :=
        fun both => hl both.1 e List.mem_cons_self both.2
      unfold Cpu.returned
      rw [Cpu.readIn_withPc _ _ _ hr, Cpu.readIn_withPsr, h.readIn mode hr hinside,
        Cpu.readIn_entered _ _ _ hr, if_neg hown]
    · intro bank hb
      have hinside : ∀ f ∈ rest, bank ≠ f.mode.bank :=
        fun f hf => hb f (List.mem_cons_of_mem _ hf)
      change (d.withPsr c.cpsr).spsrs.get bank = _
      rw [Cpu.spsrs_withPsr, h.spsrs bank hinside, Cpu.get_spsrs_entered,
        if_neg (hb e List.mem_cons_self)]
  refine ⟨hresult, hrestored, ?_⟩
  change c.instructionSet.align (d.read .lr - e.returnDistance) + c.instructionSet.lookahead -
    c.instructionSet.lookahead = _
  rw [hlr, Cpu.returnAddress, e.returnOffset_eq, BitVec.add_sub_cancel, ← BitVec.add_assoc,
    BitVec.add_sub_cancel]

/-- Handlers that run in modes of their own restore all but what belongs to them, by induction on
the nesting. -/
theorem ensures_nested (exceptions : List Exception)
    (hd : (exceptions.map Exception.mode).Nodup) :
    StepM.Ensures c (nested exceptions) fun result d =>
      result = .ok () ∧ Restored exceptions c d ∧ ∀ e rest, exceptions = e :: rest →
        d.fetchAddress = c.instructionSet.align
          (c.fetchAddress + e.returnSkip c.instructionSet) := by
  induction exceptions generalizing c with
  | nil =>
    refine StepM.ensures_pure ⟨rfl, ⟨rfl, fun _ _ _ _ => rfl, fun _ _ => rfl⟩, ?_⟩
    rintro _ _ ⟨⟩
  | cons e rest ih =>
    obtain ⟨hnot, hrest⟩ := List.nodup_cons.1 hd
    have hbank (f : Exception) (hf : f ∈ rest) : e.mode.bank ≠ f.mode.bank := fun hb =>
      hnot (List.mem_map.2 ⟨f, hf, (Exception.mode_eq_of_bank_eq hb).symm⟩)
    -- the induction hypothesis is applied to the processor in the handler
    refine StepM.ensures_lift_bind (CpuM.ensures_raise e) ?_
    rintro _ _ rfl
    refine StepM.ensures_bind (ih hrest) ?_ fun fault d hf => absurd hf.1 (by simp)
    rintro _ d ⟨_, hrestored, _⟩
    refine CpuM.Ensures.mono (ensures_return_restored hbank hrestored) ?_
    rintro result f ⟨hresult, hf, haddress⟩
    refine ⟨hresult, hf, ?_⟩
    rintro _ _ ⟨⟩
    exact haddress

/-! ### The interrupted program -/

theorem InstructionSet.align_lookahead (set : InstructionSet) :
    set.align set.lookahead = set.lookahead := by
  cases set <;> rfl

theorem Cpu.align_fetchAddress (h : c.instructionSet.align c.pc = c.pc) :
    c.instructionSet.align c.fetchAddress = c.fetchAddress :=
  Width.align_sub h c.instructionSet.align_lookahead

theorem Exception.align_returnSkip (exception : Exception) (set : InstructionSet) :
    set.align (exception.returnSkip set) = exception.returnSkip set := by
  cases exception <;> cases set <;> rfl

/-- A program at a boundary is left for a handler that returns to a boundary. -/
theorem Cpu.align_add_returnSkip (h : c.instructionSet.align c.pc = c.pc) (exception : Exception) :
    c.instructionSet.align (c.fetchAddress + exception.returnSkip c.instructionSet) =
      c.fetchAddress + exception.returnSkip c.instructionSet :=
  Width.align_add (Cpu.align_fetchAddress h) (exception.align_returnSkip c.instructionSet)

/-- **Nested exceptions unwind exactly.**  Raise exceptions whose handlers run in different modes,
and then execute the return instructions in reverse order: this succeeds and leaves the status as it
was, every register as every mode sees it and every saved status but the link registers and saved
statuses of the handlers' modes, and goes on at the interrupted instruction, or at the next if that
has raised the first exception itself. -/
theorem unwind_restores {σ : Type} (bus : Bus σ) (state : σ)
    (hpc : c.instructionSet.align c.pc = c.pc) (first : Exception) (inside : List Exception)
    (hd : ((first :: inside).map Exception.mode).Nodup) :
    let unwind : StepM Unit := do
      raiseAll (first :: inside)
      returnAll (first :: inside).reverse
    let run := unwind.runOn bus c state
    let ended := run.value.2
    run.value.1 = .ok () ∧ ended.cpsr = c.cpsr ∧
      (∀ mode register, register ≠ .pc →
        (register = .lr → ∀ e ∈ first :: inside, mode.bank ≠ e.mode.bank) →
          ended.readIn mode register = c.readIn mode register) ∧
      (∀ bank, (∀ e ∈ first :: inside, bank ≠ e.mode.bank) →
        ended.spsrs.get bank = c.spsrs.get bank) ∧
      ended.fetchAddress = c.fetchAddress + first.returnSkip c.instructionSet := by
  intro unwind run ended
  -- one list after the other is the nesting, which has an induction
  have hrun : run = (nested (first :: inside)).runOn bus c state :=
    congrArg (fun action : StepM Unit => action.runOn bus c state)
      (raiseAll_returnAll (first :: inside))
  have h := (ensures_nested (c := c) (first :: inside) hd).run bus state
  obtain ⟨hresult, hrestored, haddress⟩ := h
  have hended : ended = ((nested (first :: inside)).runOn bus c state).value.2 :=
    congrArg (·.value.2) hrun
  rw [hended, hrun]
  -- the address to return to is a boundary, so that the branch leaves it as it is
  exact ⟨hresult, hrestored.cpsr, fun mode _ hr hl => hrestored.readIn mode hr hl,
    hrestored.spsrs, (haddress _ _ rfl).trans (Cpu.align_add_returnSkip hpc first)⟩

/-- A program in User mode and Thumb state. -/
def thumbProgram : Cpu :=
  .ofConfig { entryPoint := 0x8002, mode := .user, instructionSet := .thumb, irqDisabled := false }

/-- The program raises a software interrupt, whose handler is interrupted by a fast interrupt, in
whose handler an access fails. -/
theorem unwind_restores_thumbProgram :
    let raised : List Exception := [.softwareInterrupt, .fastInterruptRequest, .dataAbort]
    let unwind : StepM Unit := do
      raiseAll raised
      returnAll raised.reverse
    let ended := (unwind.runOn Memory.bus thumbProgram { regions := [] }).value
    ended.1 = .ok () ∧ ended.2.cpsr = thumbProgram.cpsr ∧
      ended.2.fetchAddress = thumbProgram.fetchAddress + 2 := by
  have h := unwind_restores Memory.bus { regions := [] }
    (show thumbProgram.instructionSet.align thumbProgram.pc = thumbProgram.pc by decide)
    .softwareInterrupt [.fastInterruptRequest, .dataAbort] (by decide)
  dsimp only at h ⊢
  exact ⟨h.1, h.2.1, h.2.2.2.2⟩

end Armv4t

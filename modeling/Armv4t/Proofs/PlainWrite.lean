import Armv4t.Proofs.Cycles
import Armv4t.Proofs.Effects

/-!
# Opcodes that move the program counter without a notice

Main statement: an opcode that gives no notice of a branch goes on with the next instruction, unless
it is a status read or a multiplication with the program counter as destination
(`fetchAddress_of_execute`).  These write it as any other register: the bus is told nothing, and
execution goes on an instruction before the value that is written, which `readStatus_moves_silently`
shows from reset.
-/

namespace Armv4t

variable {c d : Cpu} {value : Word} {allows : Effect → Prop} {events : List BusEvent}

/-! ### Writes of the program counter without a branch -/

/-- The value that a status read delivers. -/
def statusValue (saved : Bool) (cpu : Cpu) : Word :=
  if saved then cpu.spsr?.getD cpu.cpsr.toWord else cpu.cpsr.toWord

/-- The value that an instruction writes to the program counter without a branch, if there is one.
Of the two words of a long product, the high one is written last. -/
def ArmInstruction.plainPc? (cpu : Cpu) : ArmInstruction → Option Word
  | readStatus saved destination =>
    if destination = .pc then some (statusValue saved cpu) else none
  | multiply operation =>
    if operation.destination = .pc then some (operation.result cpu) else none
  | multiplyLong operation =>
    if operation.destinationHigh = .pc then some ((operation.result cpu).extractLsb' 32 32)
    else if operation.destinationLow = .pc then some ((operation.result cpu).extractLsb' 0 32)
    else none
  | _ => none

/-- The value that an opcode writes to the program counter without a branch, if there is one. -/
def Opcode.plainPc? (cpu : Cpu) : Opcode → Option Word
  | arm word =>
    if (ArmInstruction.condition word).holds cpu.cpsr.flags then
      (ArmInstruction.ofOpcode? word).bind (·.plainPc? cpu)
    else none
  | thumb _ => none

/-- An instruction that may write the program counter without a branch does so. -/
theorem ArmInstruction.plainPc?_ne_none {instruction : ArmInstruction}
    (h : instruction.Allows .writePc) : instruction.plainPc? c ≠ none := by
  cases h with
  | readStatusPc saved =>
    unfold plainPc?
    dsimp only
    rw [if_pos rfl]
    exact Option.some_ne_none _
  | multiplyPc h =>
    unfold plainPc?
    dsimp only
    rw [if_pos h]
    exact Option.some_ne_none _
  | multiplyLongPc h =>
    unfold plainPc?
    dsimp only
    split_ifs with hhigh hlow
    -- of the two halves, the high one is written last
    · exact Option.some_ne_none _
    · exact Option.some_ne_none _
    · exact absurd h (not_or.2 ⟨hlow, hhigh⟩)

theorem Opcode.not_allows_writePc {opcode : Opcode} (h : opcode.plainPc? c = none) :
    ¬opcode.Allows c.cpsr.flags .writePc := by
  intro ha
  cases ha with
  | arm hc hi ha =>
    unfold plainPc? at h
    dsimp only at h
    rw [if_pos hc, hi] at h
    exact ArmInstruction.plainPc?_ne_none ha h
  | thumb hi ha => nomatch ha

/-! ### Ends without a notice -/

/-- The program counter has been written without a branch. -/
structure Cpu.PcWritten (c : Cpu) (value : Word) (events : List BusEvent) (flow : Flow) (d : Cpu) :
    Prop where
  flow : flow = .next
  notices : BusEvent.notices events = []
  instructionSet : d.instructionSet = c.instructionSet
  pc : d.pc = c.instructionSet.align value

open StepM

theorem yields_readStatus_pc (saved : Bool) :
    CpuM.Yields c (readStatus saved .pc) (c.PcWritten (statusValue saved c)) := by
  -- every reading ends in the same plain write
  have hwrite (value : Word) : CpuM.Yields c
      (CpuM.writeRegister .pc value >>= fun _ => pure .next) (c.PcWritten value) :=
    CpuM.yields_silent_bind (CpuM.yields_writeRegister _ _) fun _ => ⟨rfl, rfl, rfl, rfl⟩
  unfold readStatus statusValue
  refine CpuM.yields_get_bind ?_
  dsimp only
  split_ifs
  · cases c.spsr? with
    | some word => exact hwrite word
    | none => exact CpuM.yields_note_bind (hwrite c.cpsr.toWord)
  · exact hwrite c.cpsr.toWord

theorem Multiply.yields_execute_pc {operation : Multiply} (h : operation.destination = .pc) :
    CpuM.Yields c operation.execute (c.PcWritten (operation.result c)) := by
  unfold execute
  refine CpuM.yields_get_bind (CpuM.yields_charge_bind ?_)
  refine CpuM.yields_silent_bind (CpuM.yields_writeRegister _ _) fun _ => ?_
  rw [h]
  split_ifs
  · exact CpuM.yields_modify_bind ⟨rfl, rfl, rfl, rfl⟩
  · exact ⟨rfl, rfl, rfl, rfl⟩

/-- Both words of a long product are written, the high one over the low one. -/
theorem LongMultiply.yields_execute_pc {operation : LongMultiply}
    (h : (ArmInstruction.multiplyLong operation).plainPc? c = some value) :
    CpuM.Yields c operation.execute (c.PcWritten value) := by
  have hset (low high : Word) :
      ((c.write operation.destinationLow low).write operation.destinationHigh high).instructionSet =
        c.instructionSet := by
    rw [Cpu.instructionSet_write, Cpu.instructionSet_write]
  -- the later of the two writes decides the program counter
  have hpc : ((c.write operation.destinationLow ((operation.result c).extractLsb' 0 32)).write
      operation.destinationHigh ((operation.result c).extractLsb' 32 32)).pc =
        c.instructionSet.align value := by
    unfold ArmInstruction.plainPc? at h
    dsimp only at h
    split_ifs at h with hhigh hlow
    · obtain rfl := Option.some.inj h
      rw [hhigh]
      change (c.write _ _).instructionSet.align _ = _
      rw [Cpu.instructionSet_write]
    · obtain rfl := Option.some.inj h
      rw [Cpu.pc_write _ _ hhigh, hlow]
      rfl
  unfold execute
  refine CpuM.yields_get_bind (CpuM.yields_charge_bind ?_)
  refine CpuM.yields_silent_bind (CpuM.yields_writeRegister _ _) fun _ => ?_
  refine CpuM.yields_silent_bind (CpuM.yields_writeRegister _ _) fun _ => ?_
  split_ifs
  · exact CpuM.yields_modify_bind ⟨rfl, rfl, hset _ _, hpc⟩
  · exact ⟨rfl, rfl, hset _ _, hpc⟩

theorem ArmInstruction.ends_execute_pc {instruction : ArmInstruction}
    (h : instruction.plainPc? c = some value) :
    Ends c instruction.execute (c.PcWritten value) := by
  cases instruction with
  | readStatus saved destination =>
    unfold plainPc? at h
    dsimp only at h
    split_ifs at h with hd
    obtain rfl := Option.some.inj h
    rw [hd]
    exact ends_lift (yields_readStatus_pc saved)
  | multiply operation =>
    unfold plainPc? at h
    dsimp only at h
    split_ifs at h with hd
    obtain rfl := Option.some.inj h
    exact ends_lift (operation.yields_execute_pc hd)
  | multiplyLong operation => exact ends_lift (operation.yields_execute_pc h)
  -- no other instruction writes the program counter without a branch
  | _ => nomatch h

/-- After an instruction that has written the program counter, it moves on once more. -/
theorem Opcode.ends_execute_pc {opcode : Opcode} (h : opcode.plainPc? c = some value) :
    Ends c opcode.execute fun events _ d => BusEvent.notices events = [] ∧
      d.instructionSet = c.instructionSet ∧
        d.pc = c.instructionSet.align value + opcode.instructionSet.size := by
  cases opcode with
  | thumb halfword => nomatch h
  | arm word =>
    unfold plainPc? at h
    dsimp only at h
    split_ifs at h with hc
    obtain ⟨instruction, hi, hpc⟩ := Option.bind_eq_some_iff.1 h
    refine ends_charge_bind (ends_get_bind ?_)
    dsimp only
    rw [if_pos hc]
    refine ends_note_bind ?_
    rw [hi]
    dsimp only
    cases instruction.refusal? with
    | some reason => exact ends_throw
    | none =>
      -- the instruction goes on at the next one, from the address that it has written
      refine ends_bind (ArmInstruction.ends_execute_pc hpc) fun events flow d hd => ?_
      rw [hd.flow]
      rintro _ ⟨⟩
      rw [List.append_nil]
      refine ⟨hd.notices, hd.instructionSet, ?_⟩
      change d.pc + _ = _
      rw [hd.pc]
      rfl

/-- An instruction that goes on and may not write the program counter keeps it. -/
theorem InstructionEnd.pc_eq (h : InstructionEnd allows c events .next d)
    (hn : ¬allows .writePc) : d.pc = c.pc := by
  cases h with
  | next hq h => exact h.pc.resolve_right fun hw => hn hw.1
  | status hq ha hp => exact c.pc_withPsr _
  | saved hq ha value => rfl

/-- Without a notice, an opcode that may not write the program counter moves it on. -/
theorem OpcodeEnd.next_of_notices {opcode : Opcode} (h : OpcodeEnd opcode c events d)
    (hpc : opcode.plainPc? c = none) (hs : BusEvent.notices events = []) :
    d.instructionSet = c.instructionSet ∧ d.pc = c.pc + opcode.instructionSet.size := by
  cases h with
  | skipped h => exact ⟨rfl, rfl⟩
  | @next _ e h =>
    have hset : e.instructionSet = c.instructionSet := h.instructionSet_eq fun hj => nomatch hj
    refine ⟨hset, ?_⟩
    change e.pc + _ = _
    rw [h.pc_eq (Opcode.not_allows_writePc hpc)]
  | @jump e _ h =>
    -- a branch would have given notice
    have hnotice : BusEvent.notices e = [(d.fetchAddress, d.instructionSet)] := h.notices_eq
    have hnone : BusEvent.notices e = [] := hs
    rw [hnotice] at hnone
    nomatch hnone

/-- **Where execution goes on without a notice.**  An opcode that comes to its end and has given no
notice of a branch goes on with the next instruction, unless it is a status read or a multiplication
that has written the program counter.  Such an opcode never gives notice: execution goes on from the
value that it has written, rounded down to an instruction of the set in use, and that less what the
program counter is still ahead. -/
theorem fetchAddress_of_execute (opcode : Opcode) (c : Cpu) {σ : Type} (bus : Bus σ) (state : σ)
    (hok : (opcode.execute.runOn bus c state).value.1 = .ok ()) :
    let run := opcode.execute.runOn bus c state
    let ended := run.value.2
    (opcode.plainPc? c = none → BusEvent.notices run.events = [] →
      ended.instructionSet = c.instructionSet ∧
        ended.fetchAddress = c.fetchAddress + opcode.instructionSet.size) ∧
    ∀ value, opcode.plainPc? c = some value → BusEvent.notices run.events = [] ∧
      ended.instructionSet = c.instructionSet ∧
        ended.fetchAddress = c.instructionSet.align value + opcode.instructionSet.size -
          c.instructionSet.lookahead := by
  intro run ended
  constructor
  · intro hpc hs
    -- without a plain write the fetch address moves on by the size of the opcode
    obtain ⟨hset, hended⟩ := (opcode.ends_execute.run hok).next_of_notices hpc hs
    refine ⟨hset, ?_⟩
    unfold Cpu.fetchAddress
    rw [hended, hset]
    bv_omega
  · intro value hpc
    -- with one, it follows the written value instead
    obtain ⟨hs, hset, hended⟩ := (Opcode.ends_execute_pc hpc).run hok
    refine ⟨hs, hset, ?_⟩
    unfold Cpu.fetchAddress
    rw [hended, hset]

/-- From reset, where the instruction set is ARM and the status word is 0xD3, a status read into the
program counter moves it to 0xCC and gives no notice. -/
theorem readStatus_moves_silently :
    let run := (Opcode.arm 0xE10FF000).execute.runOn Memory.bus .reset { regions := [] }
    Cpu.reset.instructionSet.align Cpu.reset.pc = Cpu.reset.pc ∧
      Cpu.reset.instructionSet = .arm ∧ Cpu.reset.fetchAddress = 0 ∧
      run.value.1 = .ok () ∧ BusEvent.notices run.events = [] ∧
      run.value.2.fetchAddress = 0xCC := by
  exact ⟨by decide, rfl, by decide, rfl, rfl, by decide⟩

/-- A move between general registers goes on with the next instruction, and a multiplication by zero
into the program counter one instruction before address zero. -/
theorem fetchAddress_of_execute_reset :
    let run (opcode : Word) :=
      (Opcode.arm opcode).execute.runOn Memory.bus .reset { regions := [] }
    (run 0xE1A00001).value.1 = .ok () ∧ BusEvent.notices (run 0xE1A00001).events = [] ∧
      (run 0xE1A00001).value.2.fetchAddress = 4 ∧
      (run 0xE00F0190).value.1 = .ok () ∧ BusEvent.notices (run 0xE00F0190).events = [] ∧
      (run 0xE00F0190).value.2.fetchAddress = 0xFFFFFFFC := by
  intro run
  have hmove := fetchAddress_of_execute (.arm 0xE1A00001) .reset Memory.bus { regions := [] } rfl
  have hmultiply :=
    fetchAddress_of_execute (.arm 0xE00F0190) .reset Memory.bus { regions := [] } rfl
  obtain ⟨-, hnext⟩ := hmove.1 rfl rfl
  -- the product is zero, and so the fetch address lies an instruction behind the boundary at zero
  obtain ⟨hs, -, hplain⟩ := hmultiply.2 0 (by decide)
  have hfour : Cpu.reset.fetchAddress + InstructionSet.arm.size = 4 := by decide
  have hback : InstructionSet.arm.align 0 + InstructionSet.arm.size -
      InstructionSet.arm.lookahead = 0xFFFFFFFC := by decide
  exact ⟨rfl, rfl, hnext.trans hfour, rfl, hs, hplain.trans hback⟩

end Armv4t

import Armv4t.Proofs.BlockExecution
import Armv4t.Proofs.Memory

/-!
# Returning from an exception by way of the stack

A handler that calls other code keeps the registers it uses, and its link register, on the stack of
its mode, and returns by one load: `stackedHandler` is the whole of it.  The main result,
`stacked_return_restores`, says that the interrupted program finds everything as it was, but for the
link register and the saved status of the handler's mode.  It supposes of the bus only that it keeps
the words below the handler's stack pointer, which may be unaligned and near the bottom of the
address space.

Each instruction is shown to succeed with its own outcome (`succeeds_adjust`, `succeeds_save`,
`succeeds_restore`), for whatever transfer and registers it is given.  Between them,
`Cpu.InHandler` is the invariant: only registers that a handler may touch differ, and only as its
mode sees them.
-/

namespace Armv4t

open StepM

/-! ### The instructions of a handler -/

/-- The registers R0 to R12, in ascending order. -/
def dataRegisters : List Register :=
  Register.all.take 13

/-- The listed ones of these. -/
def savedRegisters (list : BitVec 13) : List Register :=
  dataRegisters.filter fun register => list.getLsbD register.index

/-- The store of the listed registers and of the link register on a descending stack. -/
def saveTransfer (list : BitVec 13) : BlockTransfer where
  load := false
  base := .sp
  list := 0b010#3 ++ list
  up := false
  pre := true
  writeBack := true
  mark := false

/-- The load of the listed registers and of the program counter from a descending stack, with which
the saved status is restored. -/
def restoreTransfer (list : BitVec 13) : BlockTransfer where
  load := true
  base := .sp
  list := 0b100#3 ++ list
  up := true
  pre := false
  writeBack := true
  mark := true

/-- A transfer that lists a register has a list. -/
theorem BlockTransfer.list_ne_zero {transfer : BlockTransfer} {register : Register}
    (h : transfer.lists register = true) : transfer.list ≠ 0 := by
  intro hzero
  unfold lists at h
  rw [hzero] at h
  change (0#16).getLsbD register.index = true at h
  rw [BitVec.getLsbD_zero] at h
  nomatch h

section Lists

variable (list : BitVec 13)

theorem index_of_mem_dataRegisters :
    ∀ register ∈ dataRegisters, register.index.val < 13 := by decide

/-- Under three bits for the registers above, a list of the lower registers is as it was. -/
theorem filter_dataRegisters (high : BitVec 3) {lists : Register → Bool}
    (h : ∀ register, lists register = (high ++ list).getLsbD register.index) :
    dataRegisters.filter lists = savedRegisters list := by
  refine List.filter_congr fun register hr => ?_
  have hlt := index_of_mem_dataRegisters register hr
  rw [h, BitVec.getLsbD_append, if_pos hlt]

theorem registers_saveTransfer :
    (saveTransfer list).registers = savedRegisters list ++ [.lr] := by
  have hall : Register.all = dataRegisters ++ [.sp, .lr, .pc] := by decide
  have hdata : dataRegisters.filter (saveTransfer list).lists = savedRegisters list :=
    filter_dataRegisters list 0b010#3 fun _ => rfl
  have hrest : [Register.sp, .lr, .pc].filter (saveTransfer list).lists = [.lr] := by
    simp only [List.filter, BlockTransfer.lists, saveTransfer, BitVec.getLsbD_append]
    rfl
  unfold BlockTransfer.registers
  rw [hall, List.filter_append, hdata, hrest]

theorem lists_restoreTransfer_pc : (restoreTransfer list).lists .pc = true := by
  unfold BlockTransfer.lists restoreTransfer
  dsimp only
  rw [BitVec.getLsbD_append]
  rfl

theorem lists_restoreTransfer_sp : (restoreTransfer list).lists .sp = false := by
  unfold BlockTransfer.lists restoreTransfer
  dsimp only
  rw [BitVec.getLsbD_append]
  rfl

theorem generalRegisters_restoreTransfer :
    (restoreTransfer list).generalRegisters = savedRegisters list := by
  have hgeneral : Register.general = dataRegisters ++ [.sp, .lr] := by decide
  have hdata : dataRegisters.filter (restoreTransfer list).lists = savedRegisters list :=
    filter_dataRegisters list 0b100#3 fun _ => rfl
  have hrest : [Register.sp, .lr].filter (restoreTransfer list).lists = [] := by
    simp only [List.filter, BlockTransfer.lists, restoreTransfer, BitVec.getLsbD_append]
    rfl
  unfold BlockTransfer.generalRegisters
  rw [hgeneral, List.filter_append, hdata, hrest, List.append_nil]

/-- No saved register has a part of its own in the handler's return. -/
theorem ne_of_mem_savedRegisters {register : Register} (h : register ∈ savedRegisters list) :
    register ≠ .sp ∧ register ≠ .lr ∧ register ≠ .pc := by
  have hdata : ∀ register ∈ dataRegisters,
      register ≠ .sp ∧ register ≠ .lr ∧ register ≠ .pc := by decide
  exact hdata register (List.mem_filter.1 h).1

theorem refusal?_saveTransfer : (saveTransfer list).refusal? = none := by
  have hlr : (saveTransfer list).lists .lr = true := by
    have hmem : Register.lr ∈ (saveTransfer list).registers := by
      rw [registers_saveTransfer]
      exact List.mem_append_right _ List.mem_cons_self
    exact (List.mem_filter.1 hmem).2
  unfold BlockTransfer.refusal?
  rw [if_neg (BlockTransfer.list_ne_zero hlr), if_neg fun h => nomatch h.2]

theorem refusal?_restoreTransfer : (restoreTransfer list).refusal? = none := by
  unfold BlockTransfer.refusal?
  rw [if_neg (BlockTransfer.list_ne_zero (lists_restoreTransfer_pc list)),
    if_neg fun h => nomatch h.2]

/-- The registers are stored as the handler's mode sees them. -/
theorem storedValue_saveTransfer {register : Register} (h : register ≠ .sp) (hpc : register ≠ .pc)
    (cpu : Cpu) : (saveTransfer list).storedValue cpu register = cpu.read register := by
  have hbase : ¬((saveTransfer list).writeBack = true ∧ register = (saveTransfer list).base) :=
    fun both => h both.2
  have huser : ¬(register ≠ .pc ∧ (saveTransfer list).isUserBank = true) :=
    fun both => nomatch both.2
  unfold BlockTransfer.storedValue Cpu.readLate
  dsimp only
  rw [if_neg hbase, if_neg huser, if_neg hpc]

theorem storedValues_saveTransfer (cpu : Cpu) :
    (saveTransfer list).registers.map ((saveTransfer list).storedValue cpu) =
      (savedRegisters list).map cpu.read ++ [cpu.read .lr] := by
  have hsaved : (savedRegisters list).map ((saveTransfer list).storedValue cpu) =
      (savedRegisters list).map cpu.read := by
    refine List.map_congr_left fun register hr => ?_
    obtain ⟨hsp, -, hpc⟩ := ne_of_mem_savedRegisters list hr
    exact storedValue_saveTransfer list hsp hpc cpu
  rw [registers_saveTransfer, List.map_append, hsaved, List.map_singleton,
    storedValue_saveTransfer list (by decide) (by decide)]

/-- A load that restores the status fills the registers of the current mode. -/
theorem bankMode_restoreTransfer (mode : Mode) : (restoreTransfer list).bankMode mode = mode := by
  have hloads : (restoreTransfer list).loadsPc = true := lists_restoreTransfer_pc list
  unfold BlockTransfer.bankMode BlockTransfer.isUserBank
  rw [hloads, Bool.not_true, Bool.and_false, if_neg Bool.false_ne_true]

theorem length_savedRegisters_le : (savedRegisters list).length ≤ 13 := by
  have hle := dataRegisters.length_filter_le fun register => list.getLsbD register.index
  have hlength : dataRegisters.length = 13 := by decide
  unfold savedRegisters
  omega

/-- The two transfers move as many words. -/
theorem size_saveTransfer :
    (saveTransfer list).size = 4 * BitVec.ofNat 32 ((savedRegisters list).length + 1) := by
  unfold BlockTransfer.size
  rw [registers_saveTransfer, List.length_append, List.length_singleton]

theorem size_restoreTransfer : (restoreTransfer list).size = (saveTransfer list).size := by
  rw [size_saveTransfer]
  unfold BlockTransfer.size
  rw [BlockTransfer.length_registers_of_lists (lists_restoreTransfer_pc list),
    generalRegisters_restoreTransfer]

theorem writeBackLoaded_restoreTransfer (base : Word) (cpu : Cpu) :
    (restoreTransfer list).writeBackLoaded base cpu =
      cpu.write .sp (base + (saveTransfer list).size) := by
  have hback : (restoreTransfer list).writeBack ∧
      !(restoreTransfer list).lists (restoreTransfer list).base := by
    refine ⟨rfl, ?_⟩
    change (!(restoreTransfer list).lists .sp) = true
    rw [lists_restoreTransfer_sp, Bool.not_false]
  unfold BlockTransfer.writeBackLoaded
  rw [if_pos hback, ← size_restoreTransfer]
  rfl

end Lists

/-- The subtraction that makes the link register the address to return to. -/
def adjustInstruction (exception : Exception) : DataProcessing :=
  ⟨.sub, false, .lr, .lr, .immediate (exception.returnDistance.setWidth 8) 0⟩

/-! ### Executing them -/

variable {σ : Type} {bus : Bus σ} {block : Word → Prop} {holds : σ → WordMap → Prop} {c : Cpu}
  {state : σ} {words : WordMap} {list : BitVec 13}

/-- The opcode of an instruction that is not refused succeeds as its instruction does after a
cycle. -/
theorem succeeds_executeArm {instruction : ArmInstruction} (he : instruction.Encodable)
    (hr : instruction.refusal? = none) {post : Unit → Cpu → σ → Prop}
    (h : Succeeds bus c (bus.answer (.charge 1) state).2
      (do proceed .arm (← instruction.execute)) post) :
    Succeeds bus c state (executeArm instruction.opcode) post := by
  have hc : (ArmInstruction.condition instruction.opcode).holds c.cpsr.flags = true := by
    rw [ArmInstruction.condition_opcode]
    rfl
  have htree := run_executeArm hc (ArmInstruction.ofOpcode?_opcode he)
  rw [hr] at htree
  exact succeeds_of_run_eq htree h

theorem value_adjustInstruction (exception : Exception) (cpu : Cpu) :
    ((adjustInstruction exception).result cpu).value = cpu.read .lr - exception.returnDistance := by
  have hdistance : (rotatedImmediate (exception.returnDistance.setWidth 8) 0).value =
      exception.returnDistance := by
    cases exception <;> decide
  have hvalue : ((adjustInstruction exception).result cpu).value =
      cpu.read .lr - (rotatedImmediate (exception.returnDistance.setWidth 8) 0).value :=
    value_subtractWithCarry_true _ _
  rw [hvalue, hdistance]

/-- The subtraction changes the link register. -/
theorem succeeds_adjust (exception : Exception) :
    Succeeds bus c state
      (executeArm (ArmInstruction.dataProcessing (adjustInstruction exception)).opcode) fun _ d t =>
        d = (c.write .lr (c.read .lr - exception.returnDistance)).advanced .arm ∧
          t = (bus.answer (.charge 1) state).2 := by
  -- the link register is written, and the program counter goes on
  have hwrites : ¬(adjustInstruction exception).WritesPc := fun h => nomatch h.2
  have htree := DataProcessing.run_execute_of_not_byRegister (c := c) rfl hwrites
  have hupdated : (adjustInstruction exception).updated c =
      c.write .lr (c.read .lr - exception.returnDistance) := by
    rw [← value_adjustInstruction]
    rfl
  have hencodable : (ArmInstruction.dataProcessing (adjustInstruction exception)).Encodable :=
    fun h => nomatch h
  refine succeeds_executeArm hencodable rfl (succeeds_proceed .arm .next ?_)
  refine ⟨.next, (adjustInstruction exception).updated c, ?_, rfl, ?_, ?_⟩
  · exact congrArg (fun tree => (BusProgram.run bus tree _).value) htree
  · rw [hupdated]
    rfl
  · exact congrArg (fun tree => (BusProgram.run bus tree _).state) htree

/-- The store on the stack leaves the listed registers and then the link register in ascending words
up to the old stack pointer, and moves that to the lowest of them. -/
theorem succeeds_save (hk : bus.KeepsWords block holds)
    (hb : ∀ k < (savedRegisters list).length + 1,
      block (slot (c.read .sp - (saveTransfer list).size) k)) (h : holds state words) :
    Succeeds bus c state (executeArm (ArmInstruction.blockTransfer (saveTransfer list)).opcode)
      fun _ d t => d = (c.write .sp (c.read .sp - (saveTransfer list).size)).advanced .arm ∧
        holds t (words.store (c.read .sp - (saveTransfer list).size)
          ((savedRegisters list).map c.read ++ [c.read .lr])) := by
  have hencodable : (ArmInstruction.blockTransfer (saveTransfer list)).Encodable := trivial
  have hblock : ∀ k < (saveTransfer list).registers.length,
      block (slot (c.read .sp - (saveTransfer list).size) k) := by
    rw [registers_saveTransfer, List.length_append, List.length_singleton]
    exact hb
  refine succeeds_executeArm hencodable (refusal?_saveTransfer list)
    (succeeds_proceed .arm .next ?_)
  -- the state is read for the base, and again by the store
  refine succeeds_get_bind (succeeds_get_bind ?_)
  refine succeeds_bind (BlockTransfer.succeeds_storeWords hk _ hblock (hk.charge h 1)) ?_
  rw [storedValues_saveTransfer]
  rintro _ _ t ⟨rfl, ht⟩
  exact succeeds_modify_bind (succeeds_pure ⟨rfl, rfl, ht⟩)

theorem succeeds_checkRestore {psr : Psr} (hs : c.spsr? = some psr.toWord) :
    Succeeds bus c state checkRestore fun _ d t => d = c ∧ t = state := by
  unfold checkRestore
  refine succeeds_get_bind ?_
  rw [hs]
  dsimp only
  rw [Psr.ofWord?_toWord]
  exact succeeds_pure ⟨rfl, rfl⟩

theorem succeeds_restorePsr (psr : Psr) (hs : c.spsr? = some psr.toWord) :
    Succeeds bus c state restorePsr fun _ d t => d = c.withPsr psr ∧ t = state := by
  unfold restorePsr
  refine succeeds_get_bind ?_
  rw [hs]
  dsimp only
  unfold installPsrWord
  rw [Psr.ofWord?_toWord]
  refine succeeds_lift (BusProgram.Yields.mono (CpuM.yields_installPsr psr) ?_)
  rintro _ ⟨_, _⟩ ⟨rfl, rfl⟩
  exact ⟨rfl, rfl⟩

theorem succeeds_executeLoad (hk : bus.KeepsWords block holds) {values : List Word}
    {base target : Word} {psr : Psr} (hlen : values.length = (savedRegisters list).length)
    (hw : ∀ k < values.length, words (slot base k) = values[k]?)
    (hlast : words (slot base values.length) = some target)
    (hs : c.spsr? = some psr.toWord) (h : holds state words) :
    Succeeds bus c state ((restoreTransfer list).executeLoad base) fun flow d _ =>
      flow = .jump ∧ d = (((c.fillIn c.mode (savedRegisters list) values).write .sp
        (base + (saveTransfer list).size)).withPsr psr).branched target := by
  have hpc := lists_restoreTransfer_pc list
  have hmark : (restoreTransfer list).mark = true ∧ (restoreTransfer list).lists .pc = true :=
    ⟨rfl, hpc⟩
  have hgeneral := generalRegisters_restoreTransfer list
  unfold BlockTransfer.executeLoad
  rw [if_pos hmark]
  refine succeeds_bind (succeeds_checkRestore hs) ?_
  rintro _ _ _ ⟨rfl, rfl⟩
  rw [hgeneral]
  refine succeeds_bind (BlockTransfer.succeeds_loadWords hk _ hlen hw h) ?_
  rintro _ _ t ⟨rfl, ht⟩
  rw [BlockTransfer.foldl_writeLoaded, bankMode_restoreTransfer, if_pos hpc]
  have hread : words (Width.word.align
      ((restoreTransfer list).start base + 4 * BitVec.ofNat 32 (savedRegisters list).length)) =
        some target := by
    rw [← hlen]
    exact hlast
  refine succeeds_bind (succeeds_read (hk.read ht hread).1) ?_
  rintro _ _ _ ⟨rfl, rfl, rfl⟩
  refine succeeds_charge_bind (succeeds_modify_bind ?_)
  rw [writeBackLoaded_restoreTransfer, if_pos hmark.1]
  -- the saved status is looked up once more, and the load has not changed it
  refine succeeds_bind (succeeds_restorePsr psr ?_) ?_
  · unfold Cpu.spsr? Cpu.mode at hs ⊢
    rw [Cpu.cpsr_write, Cpu.spsrs_write, Cpu.cpsr_fillIn, Cpu.spsrs_fillIn]
    exact hs
  · rintro _ _ _ ⟨rfl, rfl⟩
    exact succeeds_lift (CpuM.yields_branchTo ⟨rfl, rfl⟩)

/-- The load from the stack gives the listed registers their words, moves the stack pointer past
them and the word behind them, restores the saved status and branches to that word. -/
theorem succeeds_restore (hk : bus.KeepsWords block holds) {values : List Word} {target : Word}
    {psr : Psr} (hlen : values.length = (savedRegisters list).length)
    (hw : ∀ k < values.length, words (slot (c.read .sp) k) = values[k]?)
    (hlast : words (slot (c.read .sp) values.length) = some target)
    (hs : c.spsr? = some psr.toWord) (h : holds state words) :
    Succeeds bus c state (executeArm (ArmInstruction.blockTransfer (restoreTransfer list)).opcode)
      fun _ d _ => d = (((c.fillIn c.mode (savedRegisters list) values).write .sp
        (c.read .sp + (saveTransfer list).size)).withPsr psr).branched target := by
  have hencodable : (ArmInstruction.blockTransfer (restoreTransfer list)).Encodable := trivial
  refine succeeds_executeArm hencodable (refusal?_restoreTransfer list)
    (succeeds_proceed .arm .jump ?_)
  exact succeeds_get_bind (succeeds_executeLoad hk hlen hw hlast hs (hk.charge h 1))

/-! ### The registers during a handler -/

/-- Writes values to registers of the current mode, one after the other. -/
def Cpu.overwrite (cpu : Cpu) (values : List (Register × Word)) : Cpu :=
  values.foldl (fun cpu pair => cpu.write pair.1 pair.2) cpu

/-- A processor in the handler of an exception: the old status is saved, and all registers but the
touched ones of the handler's mode are as they were. -/
structure Cpu.InHandler (exception : Exception) (touched : Register → Prop) (c d : Cpu) :
    Prop where
  cpsr : d.cpsr = exception.handlerPsr c.cpsr
  readIn (mode : Mode) {register : Register} (hr : register ≠ .pc)
    (ht : touched register → ¬SameCell exception.mode mode register) :
    d.readIn mode register = c.readIn mode register
  spsrs (bank : Bank) : d.spsrs.get bank =
    if bank = exception.mode.bank then c.cpsr.toWord else c.spsrs.get bank

namespace Cpu.InHandler

variable {exception : Exception} {touched : Register → Prop} {d : Cpu}

theorem entered (ht : touched .lr) : c.InHandler exception touched (c.entered exception) := by
  refine ⟨rfl, fun mode register hr hn => ?_, c.get_spsrs_entered exception⟩
  have hlr : ¬(register = .lr ∧ mode.bank = exception.mode.bank) := by
    rintro ⟨rfl, hb⟩
    exact hn ht hb.symm
  rw [readIn_entered _ _ _ hr, if_neg hlr]

theorem mode_eq (h : c.InHandler exception touched d) : d.mode = exception.mode :=
  congrArg Psr.mode h.cpsr

theorem advanced (h : c.InHandler exception touched d) (set : InstructionSet) :
    c.InHandler exception touched (d.advanced set) := by
  refine ⟨h.cpsr, fun mode register hr hn => ?_, h.spsrs⟩
  exact (d.readIn_withPc _ mode hr).trans (h.readIn mode hr hn)

theorem write (h : c.InHandler exception touched d) {register : Register} (ht : touched register)
    (hr : register ≠ .pc) (value : Word) :
    c.InHandler exception touched (d.write register value) := by
  refine ⟨?_, fun mode other ho hn => ?_, fun bank => ?_⟩
  · rw [cpsr_write, h.cpsr]
  · have hother : ¬(other = register ∧ SameCell d.mode mode register) := by
      rintro ⟨rfl, hs⟩
      rw [h.mode_eq] at hs
      exact hn ht hs
    rw [readIn_write _ _ hr, if_neg hother, h.readIn mode ho hn]
  · rw [spsrs_write, h.spsrs]

theorem overwrite {values : List (Register × Word)} (h : c.InHandler exception touched d)
    (hv : ∀ pair ∈ values, touched pair.1 ∧ pair.1 ≠ .pc) :
    c.InHandler exception touched (d.overwrite values) := by
  unfold Cpu.overwrite
  induction values generalizing d with
  | nil => exact h
  | cons pair rest ih =>
    obtain ⟨⟨ht, hr⟩, hrest⟩ := List.forall_mem_cons.1 hv
    exact ih (h.write ht hr pair.2) hrest

theorem mono {touched' : Register → Prop} (h : c.InHandler exception touched d)
    (imp : ∀ register, touched register → touched' register) :
    c.InHandler exception touched' d :=
  ⟨h.cpsr, fun mode _ hr hn => h.readIn mode hr fun ht => hn (imp _ ht), h.spsrs⟩

/-- The handler finds in the other registers what they held before. -/
theorem read_eq (h : c.InHandler exception touched d) {register : Register}
    (hn : ¬touched register) (hr : register ≠ .pc) :
    d.read register = c.readIn exception.mode register := by
  rw [← d.readIn_mode, h.mode_eq]
  exact h.readIn exception.mode hr fun ht => absurd ht hn

/-- The handler can restore the status. -/
theorem spsr?_eq (h : c.InHandler exception touched d) : d.spsr? = some c.cpsr.toWord := by
  unfold spsr?
  rw [h.mode_eq, if_neg exception.bank_mode_ne_user, h.spsrs, if_pos rfl]

end Cpu.InHandler

theorem Cpu.read_overwrite {values : List (Register × Word)} {register : Register}
    (h : ∀ pair ∈ values, pair.1 ≠ register ∧ pair.1 ≠ .pc) :
    (c.overwrite values).read register = c.read register := by
  unfold overwrite
  induction values generalizing c with
  | nil => rfl
  | cons pair rest ih =>
    obtain ⟨⟨hne, hpc⟩, hrest⟩ := List.forall_mem_cons.1 h
    rw [List.foldl_cons, ih hrest, read_write _ _ hpc, if_neg hne.symm]

/-- The registers that a handler may leave changed until it returns. -/
def Touched (list : BitVec 13) (register : Register) : Prop :=
  register = .lr ∨ register = .sp ∨ register ∈ savedRegisters list

/-- The processor after a handler has given the saved registers and its stack pointer what they held
when the exception was raised, has restored the status, and has gone back. -/
def Cpu.refilled (c : Cpu) (exception : Exception) (list : BitVec 13) (d : Cpu) : Cpu :=
  (((d.fillIn exception.mode (savedRegisters list)
    ((savedRegisters list).map (c.readIn exception.mode))).write .sp
      (c.readIn exception.mode .sp)).withPsr c.cpsr).branched
        (c.fetchAddress + exception.returnSkip c.instructionSet)

/-- When the saved registers and the stack pointer have been given back their values, only the link
register of the handler's mode is lost. -/
theorem readIn_refilled {exception : Exception} {d : Cpu}
    (h : c.InHandler exception (Touched list) d) (mode : Mode) {register : Register}
    (hr : register ≠ .pc) (hl : register = .lr → mode.bank ≠ exception.mode.bank) :
    (c.refilled exception list d).readIn mode register = c.readIn mode register := by
  have hpc : .pc ∉ savedRegisters list := fun hm =>
    (ne_of_mem_savedRegisters list hm).2.2 rfl
  have hnodup : (savedRegisters list).Nodup := by
    have hdata : dataRegisters.Nodup := by decide
    exact hdata.filter _
  have hmode : (d.fillIn exception.mode (savedRegisters list)
      ((savedRegisters list).map (c.readIn exception.mode))).mode = exception.mode := by
    unfold Cpu.mode
    rw [Cpu.cpsr_fillIn]
    exact h.mode_eq
  unfold Cpu.refilled Cpu.branched
  rw [Cpu.readIn_withPc _ _ _ hr, Cpu.readIn_withPsr, Cpu.readIn_write _ _ (by decide), hmode]
  -- a cell is the handler's stack pointer, or one that has been loaded, or one that the handler has
  -- left alone; the last is all that the invariant speaks of
  by_cases hsp : register = .sp ∧ Cpu.SameCell exception.mode mode .sp
  · rw [if_pos hsp, hsp.1]
    exact c.readIn_eq_of_sameCell hsp.2
  · rw [if_neg hsp]
    by_cases hsaved : register ∈ savedRegisters list ∧
        Cpu.SameCell exception.mode mode register
    · obtain ⟨hm, hs⟩ := hsaved
      obtain ⟨i, hi⟩ := List.mem_iff_getElem?.1 hm
      have hvalue : ((savedRegisters list).map (c.readIn exception.mode))[i]? =
          some (c.readIn exception.mode register) := by
        rw [List.getElem?_map, hi]
        rfl
      rw [Cpu.readIn_fillIn hpc hnodup hi hvalue hs]
      exact c.readIn_eq_of_sameCell hs
    · rw [Cpu.readIn_fillIn_of_notMem hpc fun hm hs => hsaved ⟨List.mem_of_mem_take hm, hs⟩]
      refine h.readIn mode hr ?_
      rintro (rfl | rfl | hm) hs
      · exact hl rfl hs.symm
      · exact hsp ⟨rfl, hs⟩
      · exact hsaved ⟨hm, hs⟩

/-! ### The whole handler -/

/-- A handler that saves registers on its stack, overwrites them, and returns by way of the stack:
`sub lr, lr, #k`, `stmdb sp!, {.., lr}`, the overwriting, and `ldmia sp!, {.., pc}^`. -/
def stackedHandler (exception : Exception) (list : BitVec 13) (values : List (Register × Word)) :
    StepM Unit := do
  CpuM.raise exception
  executeArm (ArmInstruction.dataProcessing (adjustInstruction exception)).opcode
  executeArm (ArmInstruction.blockTransfer (saveTransfer list)).opcode
  modify (·.overwrite values)
  executeArm (ArmInstruction.blockTransfer (restoreTransfer list)).opcode

/-- The aligned words below an address, as many as given. -/
def WordsBelow (address : Word) (count : Nat) (word : Word) : Prop :=
  ∃ k, 1 ≤ k ∧ k ≤ count ∧ word = Width.word.align (address - 4 * BitVec.ofNat 32 k)

theorem wordsBelow_slot (address : Word) {count k : Nat} (h : k < count) :
    WordsBelow address count (slot (address - 4 * BitVec.ofNat 32 count) k) := by
  refine ⟨count - k, by omega, by omega, ?_⟩
  have hsum : BitVec.ofNat 32 count = BitVec.ofNat 32 (count - k) + BitVec.ofNat 32 k := by
    rw [← BitVec.ofNat_add, Nat.sub_add_cancel (Nat.le_of_lt h)]
  unfold slot
  rw [hsum]
  congr 1
  generalize BitVec.ofNat 32 (count - k) = rest
  generalize BitVec.ofNat 32 k = used
  bv_omega

variable {exception : Exception} {d : Cpu}

/-- The words that a handler keeps on its stack: the values of the saved registers as it found
them, and the address to return to. -/
def stackedWords (c : Cpu) (exception : Exception) (list : BitVec 13) : List Word :=
  (savedRegisters list).map (c.readIn exception.mode) ++
    [c.fetchAddress + exception.returnSkip c.instructionSet]

/-- The stack pointer of a handler while it keeps these words. -/
def lowered (c : Cpu) (exception : Exception) (list : BitVec 13) : Word :=
  c.readIn exception.mode .sp - (saveTransfer list).size

/-- The handler at its first instruction but one: the link register holds the address to return
to, and nothing else is touched. -/
theorem succeeds_enter (hk : bus.KeepsWords block holds) (h : holds state words)
    (exception : Exception) :
    Succeeds bus c state (do
      CpuM.raise exception
      executeArm (ArmInstruction.dataProcessing (adjustInstruction exception)).opcode)
      fun _ d t => c.InHandler exception (· = .lr) d ∧
        d.read .lr = c.fetchAddress + exception.returnSkip c.instructionSet ∧ holds t words := by
  -- the entry notices its branch and takes two cycles, and the words stay
  have hraise : Succeeds bus c state (liftM (CpuM.raise exception)) fun _ d t =>
      d = c.entered exception ∧ holds t words := by
    refine succeeds_lift (BusProgram.Yields.mono (CpuM.yields_raise exception) ?_)
    rintro _ ⟨_, _⟩ ⟨rfl, rfl⟩
    exact ⟨rfl, hk.charge (hk.branch h _ _) 2⟩
  refine succeeds_bind hraise ?_
  rintro _ _ t ⟨rfl, ht⟩
  have hin : c.InHandler exception (· = .lr) (c.entered exception) := .entered rfl
  -- the link register is the handler's own
  have hlr : (c.entered exception).read .lr = c.returnAddress exception := by
    rw [← Cpu.readIn_mode, hin.mode_eq, Cpu.readIn_entered _ _ _ (by decide), if_pos ⟨rfl, rfl⟩]
  refine (succeeds_adjust exception).mono ?_
  rintro _ _ _ ⟨rfl, rfl⟩
  refine ⟨(hin.write rfl (by decide) _).advanced .arm, ?_, hk.charge ht 1⟩
  change (c.entered exception).read .lr - exception.returnDistance = _
  -- taking off the distance leaves what the exception lets skip
  rw [hlr, Cpu.returnAddress, exception.returnOffset_eq, ← BitVec.add_assoc,
    BitVec.add_sub_cancel]

/-- The handler has its words on the stack. -/
theorem succeeds_stack (hk : bus.KeepsWords
      (WordsBelow (c.readIn exception.mode .sp) ((savedRegisters list).length + 1)) holds)
    (hin : c.InHandler exception (· = .lr) d)
    (hlr : d.read .lr = c.fetchAddress + exception.returnSkip c.instructionSet)
    (h : holds state words) :
    Succeeds bus d state (executeArm (ArmInstruction.blockTransfer (saveTransfer list)).opcode)
      fun _ e t => c.InHandler exception (Touched list) e ∧
        e.read .sp = lowered c exception list ∧
          holds t (words.store (lowered c exception list) (stackedWords c exception list)) := by
  have hsp : d.read .sp = c.readIn exception.mode .sp := hin.read_eq (by decide) (by decide)
  -- the handler has touched the link register only, so that the others hold what they held
  have hvalues : (savedRegisters list).map d.read ++ [d.read .lr] =
      stackedWords c exception list := by
    unfold stackedWords
    rw [hlr]
    congr 1
    refine List.map_congr_left fun register hr => ?_
    obtain ⟨-, hne, hpc⟩ := ne_of_mem_savedRegisters list hr
    exact hin.read_eq hne hpc
  -- the block ends where the stack pointer was
  have hblock : ∀ k < (savedRegisters list).length + 1,
      WordsBelow (c.readIn exception.mode .sp) ((savedRegisters list).length + 1)
        (slot (d.read .sp - (saveTransfer list).size) k) := by
    intro k hlt
    rw [hsp, size_saveTransfer]
    exact wordsBelow_slot _ hlt
  have hsave := succeeds_save hk hblock h
  rw [hvalues, hsp] at hsave
  refine hsave.mono ?_
  rintro _ _ t ⟨rfl, ht⟩
  -- from here on, the listed registers and the stack pointer count as touched too
  have htouched : c.InHandler exception (Touched list) d := hin.mono fun _ => .inl
  refine ⟨?_, rfl, ht⟩
  exact (htouched.write (.inr (.inl rfl)) (by decide) _).advanced .arm

/-- The handler has returned, and its processor has been refilled. -/
theorem succeeds_unstack (hk : bus.KeepsWords block holds)
    (hin : c.InHandler exception (Touched list) d) (hsp : d.read .sp = lowered c exception list)
    (h : holds state (words.store (lowered c exception list) (stackedWords c exception list))) :
    Succeeds bus d state (executeArm (ArmInstruction.blockTransfer (restoreTransfer list)).opcode)
      fun _ e _ => e = c.refilled exception list d := by
  have hlen : ((savedRegisters list).map (c.readIn exception.mode)).length =
      (savedRegisters list).length := List.length_map _
  have hall : (stackedWords c exception list).length = (savedRegisters list).length + 1 := by
    unfold stackedWords
    rw [List.length_append, hlen, List.length_singleton]
  have hle := length_savedRegisters_le list
  -- each slot holds its word, as the block is too short to meet itself
  have hslot (k : Nat) (hk : k < (savedRegisters list).length + 1) :
      words.store (lowered c exception list) (stackedWords c exception list)
        (slot (d.read .sp) k) = (stackedWords c exception list)[k]? := by
    rw [hsp]
    exact WordMap.store_slot (by omega) (by omega)
  have hwords : ∀ k < ((savedRegisters list).map (c.readIn exception.mode)).length,
      words.store (lowered c exception list) (stackedWords c exception list)
        (slot (d.read .sp) k) = ((savedRegisters list).map (c.readIn exception.mode))[k]? := by
    intro k hlt
    rw [hslot k (by omega)]
    exact List.getElem?_append_left hlt
  -- the last word goes to the program counter
  have hlast : words.store (lowered c exception list) (stackedWords c exception list)
      (slot (d.read .sp) ((savedRegisters list).map (c.readIn exception.mode)).length) =
        some (c.fetchAddress + exception.returnSkip c.instructionSet) := by
    rw [hslot _ (by omega)]
    exact List.getElem?_concat_length
  -- the stack pointer is back where the handler found it
  have hback : lowered c exception list + (saveTransfer list).size =
      c.readIn exception.mode .sp := BitVec.sub_add_cancel _ _
  have hrestore := succeeds_restore hk hlen hwords hlast hin.spsr?_eq h
  rw [hsp, hback, hin.mode_eq] at hrestore
  exact hrestore

/-- When the handler has returned, its processor has been refilled. -/
theorem succeeds_stackedHandler {values : List (Register × Word)}
    (hk : bus.KeepsWords
      (WordsBelow (c.readIn exception.mode .sp) ((savedRegisters list).length + 1)) holds)
    (hh : holds state words) (hv : ∀ pair ∈ values, pair.1 ∈ savedRegisters list) :
    Succeeds bus c state (stackedHandler exception list values) fun _ ended _ =>
      ∃ d, c.InHandler exception (Touched list) d ∧ ended = c.refilled exception list d := by
  have hregisters : ∀ pair ∈ values,
      pair.1 ∈ savedRegisters list ∧ pair.1 ≠ .sp ∧ pair.1 ≠ .pc := by
    intro pair hp
    obtain ⟨hsp, -, hpc⟩ := ne_of_mem_savedRegisters list (hv pair hp)
    exact ⟨hv pair hp, hsp, hpc⟩
  have hrun : stackedHandler exception list values = (do
      CpuM.raise exception
      executeArm (ArmInstruction.dataProcessing (adjustInstruction exception)).opcode) >>=
        fun _ => (do
          executeArm (ArmInstruction.blockTransfer (saveTransfer list)).opcode
          modify (·.overwrite values)
          executeArm (ArmInstruction.blockTransfer (restoreTransfer list)).opcode) := by
    unfold stackedHandler
    rw [bind_assoc]
  rw [hrun]
  refine succeeds_bind (succeeds_enter hk hh exception) ?_
  -- up to here only the link register is touched, so the stack is saved as the program left it
  rintro _ d t ⟨hin, hlr, ht⟩
  refine succeeds_bind (succeeds_stack hk hin hlr ht) ?_
  rintro _ e t ⟨hin, hsp, ht⟩
  refine succeeds_modify_bind ?_
  have hover : c.InHandler exception (Touched list) (e.overwrite values) :=
    hin.overwrite fun pair hp => ⟨.inr (.inr (hregisters pair hp).1), (hregisters pair hp).2.2⟩
  have hstack : (e.overwrite values).read .sp = lowered c exception list := by
    rw [Cpu.read_overwrite fun pair hp => (hregisters pair hp).2, hsp]
  refine (succeeds_unstack hk hover hstack ht).mono ?_
  rintro _ ended _ hended
  exact ⟨_, hover, hended⟩

/-- **A return by way of the stack restores the interrupted program.**  Raise an exception, let its
handler subtract from the link register what it lies beyond the instruction to return to, store any
of R0 to R12 and the link register on its stack, overwrite the stored registers, and load them and
the program counter from the stack with the saved status.  On every bus that keeps the aligned words
below the handler's stack pointer, this succeeds and leaves the status as it was, every register as
every mode sees it and every saved status but the link register and the saved status of the
handler's mode, and goes on at the interrupted instruction, or at the next if that has raised the
exception itself. -/
theorem stacked_return_restores {σ : Type} (bus : Bus σ) (state : σ) (c : Cpu)
    (hpc : c.instructionSet.align c.pc = c.pc) (exception : Exception) (list : BitVec 13)
    (values : List (Register × Word)) (hv : ∀ pair ∈ values, pair.1 ∈ savedRegisters list)
    (holds : σ → WordMap → Prop)
    (hk : bus.KeepsWords
      (WordsBelow (c.readIn exception.mode .sp) ((savedRegisters list).length + 1)) holds)
    (hh : holds state fun _ => none) :
    let run := (stackedHandler exception list values).runOn bus c state
    let ended := run.value.2
    run.value.1 = .ok () ∧ ended.cpsr = c.cpsr ∧
      (∀ mode register, register ≠ .pc → (register = .lr → mode.bank ≠ exception.mode.bank) →
        ended.readIn mode register = c.readIn mode register) ∧
      (∀ bank, bank ≠ exception.mode.bank → ended.spsrs.get bank = c.spsrs.get bank) ∧
      ended.fetchAddress = c.fetchAddress + exception.returnSkip c.instructionSet := by
  intro run ended
  obtain ⟨_, _, hvalue, d, hin, hd⟩ := succeeds_stackedHandler hk hh hv
  have hended : ended = _ := (congrArg Prod.snd hvalue).trans hd
  rw [hended]
  refine ⟨congrArg Prod.fst hvalue, rfl, ?_, ?_, ?_⟩
  · intro mode register hr hl
    exact readIn_refilled hin mode hr hl
  · intro bank hb
    -- filling the registers leaves the saved statuses
    have hspsrs : (c.refilled exception list d).spsrs = d.spsrs := by
      change (((d.fillIn _ _ _).write .sp _).withPsr c.cpsr).spsrs = d.spsrs
      rw [Cpu.spsrs_withPsr, Cpu.spsrs_write, Cpu.spsrs_fillIn]
    rw [hspsrs, hin.spsrs, if_neg hb]
  · -- the address to return to is a boundary, so that the branch leaves it as it is
    exact (Cpu.fetchAddress_branched _ _).trans (Cpu.align_add_returnSkip hpc exception)

/-- The program is interrupted by a fast interrupt, whose handler keeps R0, R8 and the address to
return to around the address zero, with an unaligned stack pointer. -/
theorem stacked_return_restores_thumbProgram :
    let start := thumbProgram.writeIn .fiq .sp 6
    let memory : Memory := { regions := [⟨0xFFFFFFF0, 0x10, false⟩, ⟨0, 0x10, false⟩] }
    let values : List (Register × Word) := [(.ofField 0#4, 0x1111), (.ofField 8#4, 0x8888)]
    let run := (stackedHandler .fastInterruptRequest 0x101 values).runOn Memory.bus start memory
    run.value.1 = .ok () ∧ run.value.2.cpsr = start.cpsr ∧
      run.value.2.fetchAddress = start.fetchAddress := by
  intro start memory values run
  have hblock : ∀ address, WordsBelow 6 3 address → Width.word.align address = address ∧
      ∃ region, memory.regions.find? (·.contains address .word) = some region ∧
        region.readOnly = false := by
    -- the word at zero and, round the end of the address space, two words below it
    rintro address ⟨k, hlow, hhigh, rfl⟩
    refine ⟨Width.align_align _ _, ?_⟩
    have hk : k = 1 ∨ k = 2 ∨ k = 3 := by omega
    rcases hk with rfl | rfl | rfl
    · exact ⟨⟨0, 0x10, false⟩, by decide, rfl⟩
    · exact ⟨⟨0xFFFFFFF0, 0x10, false⟩, by decide, rfl⟩
    · exact ⟨⟨0xFFFFFFF0, 0x10, false⟩, by decide, rfl⟩
  have h := stacked_return_restores Memory.bus memory start (by decide) .fastInterruptRequest 0x101
    values (by decide) _ (Memory.keepsWords hblock) ⟨rfl, fun _ _ hn => nomatch hn⟩
  obtain ⟨hok, hcpsr, -, -, haddress⟩ := h
  exact ⟨hok, hcpsr, haddress.trans (BitVec.add_zero _)⟩

end Armv4t

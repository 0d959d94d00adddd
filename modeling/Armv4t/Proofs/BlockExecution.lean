import Armv4t.Proofs.Endings
import Armv4t.Proofs.Failure
import Armv4t.Proofs.Frame
import Armv4t.Proofs.Served
import Armv4t.Proofs.Stack

/-!
# Block transfers that come to their end

What a block transfer has done when no access has failed, for any transfer that restores no status.
A block load has given the listed registers the words it has read and has written the base back
(`BlockTransfer.filled`), and then goes on or branches to the last of the words; a block store has
written the values of the listed registers and the base (`BlockTransfer.writtenBack`).

Each of this is said twice: of every bus that serves the accesses (`whenServed_executeLoad`,
`whenServed_executeStore`) and of a bus that keeps the words of the block (`succeeds_executeLoad`,
`succeeds_executeStore`), where the accesses cannot fail.  `Opcode.whenServed_execute` and
`Opcode.succeeds_execute` say the same of an opcode, which takes a cycle before its instruction.
-/

namespace Armv4t

open StepM

variable {σ : Type} {bus : Bus σ} {block : Word → Prop} {holds : σ → WordMap → Prop} {c : Cpu}
  {state : σ} {contents : WordMap} {transfer : BlockTransfer}

/-! ### The processor at the end -/

namespace Cpu

theorem pc_fillIn (cpu : Cpu) (mode : Mode) {registers : List Register} (words : List Word)
    (h : .pc ∉ registers) : (cpu.fillIn mode registers words).pc = cpu.pc := by
  have hread : (cpu.fillIn mode registers words).readIn mode .pc = cpu.readIn mode .pc :=
    readIn_fillIn_of_notMem h fun hm => absurd (List.mem_of_mem_take hm) h
  exact hread

/-- A register of the current mode that is filled reads as its word. -/
theorem read_fillIn (cpu : Cpu) {registers : List Register} {words : List Word}
    (hpc : .pc ∉ registers) (hn : registers.Nodup) {k : Nat} {register : Register} {word : Word}
    (hr : registers[k]? = some register) (hw : words[k]? = some word) :
    (cpu.fillIn cpu.mode registers words).read register = word := by
  have hmode : (cpu.fillIn cpu.mode registers words).mode = cpu.mode :=
    congrArg Psr.mode cpsr_fillIn
  rw [← readIn_mode, hmode]
  exact readIn_fillIn hpc hn hr hw (sameCell_self cpu.mode register)

end Cpu

namespace BlockTransfer

/-- The processor after words have been loaded to the general registers and the base has been
written back. -/
def filled (transfer : BlockTransfer) (words : List Word) (cpu : Cpu) : Cpu :=
  transfer.writeBackLoaded (cpu.read transfer.base)
    (cpu.fillIn (transfer.bankMode cpu.mode) transfer.generalRegisters words)

/-- The processor after a store has written the base back. -/
def writtenBack (transfer : BlockTransfer) (cpu : Cpu) : Cpu :=
  if transfer.writeBack then
    cpu.write transfer.base (transfer.final (cpu.read transfer.base))
  else cpu

variable {words : List Word}

theorem cpsr_filled : (transfer.filled words c).cpsr = c.cpsr := by
  unfold filled writeBackLoaded
  split_ifs
  · rw [Cpu.cpsr_write, Cpu.cpsr_fillIn]
  · exact Cpu.cpsr_fillIn

theorem instructionSet_filled : (transfer.filled words c).instructionSet = c.instructionSet :=
  congrArg Psr.instructionSet cpsr_filled

section BaseNotPc

variable (hpc : transfer.writeBack = true → transfer.base ≠ .pc)

include hpc

theorem pc_filled : (transfer.filled words c).pc = c.pc := by
  have hgeneral : .pc ∉ transfer.generalRegisters := pc_notMem_generalRegisters
  have hfill := c.pc_fillIn (transfer.bankMode c.mode) words hgeneral
  unfold filled writeBackLoaded
  split_ifs with h
  · rw [Cpu.pc_write _ _ (hpc h.1), hfill]
  · exact hfill

theorem pc_writtenBack : (transfer.writtenBack c).pc = c.pc := by
  unfold writtenBack
  split_ifs with h
  · exact Cpu.pc_write _ _ (hpc h)
  · rfl

/-- A transfer with a list, and without a base that may not be written, has a defined effect. -/
theorem refusal?_eq_none (hl : transfer.list ≠ 0) : transfer.refusal? = none := by
  unfold refusal?
  rw [if_neg hl, if_neg fun both => hpc both.1 both.2]

end BaseNotPc

/-- A store changes no register but the base. -/
theorem agreesBut_writtenBack (hpc : transfer.writeBack = true → transfer.base ≠ .pc) :
    c.AgreesBut c.mode (fun register => transfer.writeBack = true ∧ register = transfer.base)
      (transfer.writtenBack c) := by
  unfold writtenBack
  split_ifs with h
  · rw [Cpu.write_eq_writeIn]
    exact (Cpu.AgreesBut.refl c).writeIn ⟨h, rfl⟩ (hpc h) _
  · exact Cpu.AgreesBut.refl c

theorem mem_generalRegisters {register : Register} :
    register ∈ transfer.generalRegisters ↔ transfer.lists register = true ∧ register ≠ .pc := by
  have hgeneral : register ∈ Register.general ↔ register ≠ .pc := by
    unfold Register.general
    rw [List.mem_filter, decide_eq_true_iff]
    exact and_iff_right register.mem_all
  unfold generalRegisters
  rw [List.mem_filter, hgeneral, and_comm]

/-- A load changes the listed registers of the mode it loads, and nothing else. -/
theorem agreesBut_fillIn (mode : Mode) :
    c.AgreesBut mode (fun register => transfer.lists register = true)
      (c.fillIn mode transfer.generalRegisters words) := by
  have hlists : ∀ register ∈ transfer.generalRegisters, transfer.lists register = true := by
    intro register hm
    exact (mem_generalRegisters.1 hm).1
  exact (Cpu.AgreesBut.refl c).fillIn hlists pc_notMem_generalRegisters words

/-! ### The loops -/

/-- A loop that loads registers, when the bus serves it, has read a word for each of them. -/
theorem whenServed_loadWords (write : Register → Word → Cpu → Cpu) (registers : List Register)
    (start : Word) :
    WhenServed c (loadWords write registers start) fun events _ d =>
      ∃ words : List Word, words.length = registers.length ∧ events = wordReads start words ∧
        d = (registers.zip words).foldl (fun cpu pair => write pair.1 pair.2 cpu) c := by
  apply BusProgram.Yields.mono (yields_loadWords write registers start)
  rintro _ ⟨_, _⟩ (⟨words, hlen⟩ | ⟨words, -, reason⟩) hserved
  · exact ⟨(), rfl, words, hlen, rfl, rfl⟩
  · -- the last of the reads has failed, so that not all are served
    have hfailed : (failedRead start words.length reason).Served :=
      hserved _ (List.mem_append_right _ List.mem_cons_self)
    nomatch hfailed

/-- A loop that stores registers, when the bus serves it, has written the value of each. -/
theorem whenServed_storeWords (value : Register → Word) (registers : List Register)
    (start : Word) :
    WhenServed c (storeWords value registers start) fun events _ d =>
      events = wordWrites start (registers.map value) ∧ d = c := by
  apply BusProgram.Yields.mono (yields_storeWords value registers start)
  rintro _ ⟨_, _⟩ (_ | ⟨-, reason⟩) hserved
  · exact ⟨(), rfl, rfl, rfl⟩
  · have hfailed := hserved _ (List.mem_append_right _ List.mem_cons_self)
    nomatch hfailed

/-! ### Block loads -/

/-- A block load without the program counter goes on with the next instruction. -/
theorem executeLoad_eq_next (hpc : transfer.lists .pc = false) (base : Word) :
    transfer.executeLoad base = (do
      loadWords transfer.writeLoaded transfer.generalRegisters (transfer.start base)
      CpuM.charge 1
      modify (transfer.writeBackLoaded base)
      return .next) := by
  unfold executeLoad
  simp only [hpc, Bool.false_eq_true, and_false, if_false]

/-- A block load with the program counter that restores no status ends with a branch in the current
instruction set. -/
theorem executeLoad_eq_branch (hpc : transfer.lists .pc = true) (hm : transfer.mark = false)
    (base : Word) :
    transfer.executeLoad base = (do
      loadWords transfer.writeLoaded transfer.generalRegisters (transfer.start base)
      let target ← StepM.read .word
        (slot (transfer.start base) transfer.generalRegisters.length)
      CpuM.charge 1
      modify (transfer.writeBackLoaded base)
      CpuM.branchTo target) := by
  unfold executeLoad
  simp only [hpc, hm, Bool.false_eq_true, false_and, if_false, if_true]
  rfl

theorem wordReads_concat (start : Word) (words : List Word) (last : Word) :
    wordReads start (words ++ [last]) =
      wordReads start words ++ [.read .word (slot start words.length) (.ok last)] :=
  List.mapIdx_concat

/-- A block load without the program counter, when the bus serves it. -/
theorem whenServed_executeLoad (hpc : transfer.lists .pc = false) :
    WhenServed c (transfer.executeLoad (c.read transfer.base)) fun events flow d =>
      ∃ words : List Word, words.length = transfer.generalRegisters.length ∧
        events = wordReads (transfer.start (c.read transfer.base)) words ++ [.charge 1] ∧
          flow = .next ∧ d = transfer.filled words c := by
  rw [executeLoad_eq_next hpc]
  apply whenServed_bind (whenServed_loadWords _ _ _)
  -- one word for each register, in the order of the list
  rintro _ _ _ ⟨words, hlen, rfl, rfl⟩
  rw [foldl_writeLoaded]
  apply whenServed_charge_bind
  apply whenServed_modify_bind
  apply whenServed_pure
  exact ⟨words, hlen, rfl, rfl, rfl⟩

/-- A block load with the program counter, when the bus serves it: the last word is where the
program goes on. -/
theorem whenServed_executeLoad_pc (hpc : transfer.lists .pc = true)
    (hm : transfer.mark = false) :
    WhenServed c (transfer.executeLoad (c.read transfer.base)) fun events flow d =>
      ∃ words target, words.length = transfer.generalRegisters.length ∧
        events = wordReads (transfer.start (c.read transfer.base)) (words ++ [target]) ++
          .charge 1 :: c.branchEvents target ∧
          flow = .jump ∧ d = (transfer.filled words c).branched target := by
  rw [executeLoad_eq_branch hpc hm]
  apply whenServed_bind (whenServed_loadWords _ _ _)
  rintro _ _ _ ⟨words, hlen, rfl, rfl⟩
  rw [foldl_writeLoaded]
  apply whenServed_bind (whenServed_read _ _)
  rintro _ target _ ⟨rfl, rfl⟩
  apply whenServed_charge_bind
  apply whenServed_modify_bind
  apply whenServed_lift
  apply CpuM.yields_branchTo
  -- the branch is announced in the set that was in use
  have hbranch : (transfer.filled words c).branchEvents target = c.branchEvents target := by
    unfold Cpu.branchEvents
    rw [instructionSet_filled]
  refine ⟨words, target, hlen, ?_, rfl, rfl⟩
  rw [wordReads_concat, hlen, List.append_assoc, ← hbranch]
  rfl

/-- A block load without the program counter from a block that holds words. -/
theorem succeeds_executeLoad (hk : bus.KeepsWords block holds) (h : holds state contents)
    (hpc : transfer.lists .pc = false) (hlen : words.length = transfer.generalRegisters.length)
    (hw : ∀ k < words.length,
      contents (slot (transfer.start (c.read transfer.base)) k) = words[k]?) :
    Succeeds bus c state (transfer.executeLoad (c.read transfer.base)) fun flow d _ =>
      flow = .next ∧ d = transfer.filled words c := by
  rw [executeLoad_eq_next hpc]
  apply succeeds_bind (succeeds_loadWords hk _ hlen hw h)
  -- the words go to their registers as they do for any bus
  rintro _ _ t ⟨rfl, -⟩
  rw [foldl_writeLoaded]
  apply succeeds_charge_bind
  apply succeeds_modify_bind
  exact succeeds_pure ⟨rfl, rfl⟩

/-- A block load with the program counter from a block that holds words. -/
theorem succeeds_executeLoad_pc (hk : bus.KeepsWords block holds) (h : holds state contents)
    (hpc : transfer.lists .pc = true) (hm : transfer.mark = false) {target : Word}
    (hlen : words.length = transfer.generalRegisters.length)
    (hw : ∀ k < words.length,
      contents (slot (transfer.start (c.read transfer.base)) k) = words[k]?)
    (hlast : contents (slot (transfer.start (c.read transfer.base)) words.length) = some target) :
    Succeeds bus c state (transfer.executeLoad (c.read transfer.base)) fun flow d _ =>
      flow = .jump ∧ d = (transfer.filled words c).branched target := by
  rw [executeLoad_eq_branch hpc hm]
  apply succeeds_bind (succeeds_loadWords hk _ hlen hw h)
  rintro _ _ t ⟨rfl, ht⟩
  rw [foldl_writeLoaded, ← hlen]
  -- the word for the program counter lies behind those of the registers
  apply succeeds_bind (succeeds_read (hk.read ht hlast).1)
  rintro _ _ _ ⟨rfl, rfl, rfl⟩
  apply succeeds_charge_bind
  apply succeeds_modify_bind
  exact succeeds_lift (CpuM.yields_branchTo ⟨rfl, rfl⟩)

/-! ### Block stores -/

/-- A block store, when the bus serves it. -/
theorem whenServed_executeStore :
    WhenServed c (transfer.executeStore (c.read transfer.base)) fun events flow d =>
      events = wordWrites (transfer.start (c.read transfer.base))
          (transfer.registers.map (transfer.storedValue c)) ∧
        flow = .next ∧ d = transfer.writtenBack c := by
  unfold executeStore
  apply whenServed_get_bind
  apply whenServed_bind (whenServed_storeWords _ _ _)
  rintro _ _ _ ⟨rfl, rfl⟩
  unfold writtenBack
  -- the base is written back behind the last word
  split_ifs
  · apply whenServed_modify_bind
    exact whenServed_pure ⟨List.append_nil _, rfl, rfl⟩
  · exact whenServed_pure ⟨List.append_nil _, rfl, rfl⟩

/-- A block store to a block that is kept. -/
theorem succeeds_executeStore (hk : bus.KeepsWords block holds) (h : holds state contents)
    (hb : ∀ k < transfer.registers.length,
      block (slot (transfer.start (c.read transfer.base)) k)) :
    Succeeds bus c state (transfer.executeStore (c.read transfer.base)) fun flow d t =>
      (flow = .next ∧ d = transfer.writtenBack c) ∧
        holds t (contents.store (transfer.start (c.read transfer.base))
          (transfer.registers.map (transfer.storedValue c))) := by
  unfold executeStore
  apply succeeds_get_bind
  apply succeeds_bind (succeeds_storeWords hk _ hb h)
  -- every word went to its place in the block
  rintro _ _ t ⟨rfl, ht⟩
  unfold writtenBack
  split_ifs
  · apply succeeds_modify_bind
    exact succeeds_pure ⟨⟨rfl, rfl⟩, ht⟩
  · exact succeeds_pure ⟨⟨rfl, rfl⟩, ht⟩

end BlockTransfer

/-! ### Opcodes -/

/-- A Thumb instruction that is a block transfer does what the transfer does. -/
theorem ThumbInstruction.execute_of_block? {instruction : ThumbInstruction}
    (h : instruction.block? = some transfer) :
    instruction.refusal? = transfer.refusal? ∧ instruction.execute = transfer.execute := by
  cases instruction with
  | push | pop | multiple =>
    obtain rfl := Option.some.inj h
    exact ⟨rfl, rfl⟩
  | _ => nomatch h

/-- When the bus serves an instruction, the program counter moves on unless there was a branch. -/
theorem whenServed_proceed {x : StepM Flow} (set : InstructionSet) (flow : Flow)
    {post : List BusEvent → Unit → Cpu → Prop}
    (h : WhenServed c x fun events ended d =>
      ended = flow ∧ post events () (if flow = .next then d.advanced set else d)) :
    WhenServed c (do proceed set (← x)) post := by
  apply whenServed_bind h
  rintro events ended d ⟨hended, hp⟩
  rw [hended]
  rw [← events.append_nil] at hp
  cases flow with
  | next | jump => exact fun _ => ⟨(), rfl, hp⟩

/-- After an instruction that succeeds, the program counter moves on unless there was a branch. -/
theorem succeeds_proceed {x : StepM Flow} (set : InstructionSet) (flow : Flow)
    {post : Unit → Cpu → σ → Prop}
    (h : Succeeds bus c state x fun ended d t =>
      ended = flow ∧ post () (if flow = .next then d.advanced set else d) t) :
    Succeeds bus c state (do proceed set (← x)) post := by
  apply succeeds_bind h
  rintro ended d t ⟨hended, hp⟩
  rw [hended]
  cases flow with
  | next | jump => exact ⟨(), _, rfl, hp⟩

namespace Opcode

variable {opcode : Opcode}

section Execute

variable (hb : opcode.block? = some transfer) (hc : opcode.holds c.cpsr.flags = true)
  (hr : transfer.refusal? = none)

include hb hc hr

/-- An opcode that says a block transfer with a defined effect takes a cycle and a log record, and
then transfers the block. -/
theorem run_execute_of_block? :
    ∃ record, opcode.execute.run.run c = .request (.charge 1) fun _ => .note record
      ((do proceed opcode.instructionSet (← transfer.execute) : StepM Unit).run.run c) := by
  cases opcode with
  | arm word =>
    obtain ⟨instruction, hi, hb⟩ := Option.bind_eq_some_iff.1 hb
    -- a block transfer is the instruction itself
    obtain rfl := ArmInstruction.eq_of_block? hb
    have hrefusal : (ArmInstruction.blockTransfer transfer).refusal? = none := hr
    have htree := run_executeArm hc hi
    rw [hrefusal] at htree
    exact ⟨_, htree⟩
  | thumb halfword =>
    obtain ⟨instruction, hi, hb⟩ := Option.bind_eq_some_iff.1 hb
    obtain ⟨hrefusal, hexecute⟩ := ThumbInstruction.execute_of_block? hb
    -- a Thumb opcode performs the transfer that it stands for
    have htree := run_executeThumb (c := c) hi
    rw [hrefusal, hr, hexecute] at htree
    exact ⟨_, htree⟩

/-- What a block transfer does when the bus serves it, its opcode does after a cycle. -/
theorem whenServed_execute (flow : Flow) {post : List BusEvent → Unit → Cpu → Prop}
    (h : WhenServed c transfer.execute fun events ended d =>
      ended = flow ∧ post (.charge 1 :: events) ()
        (if flow = .next then d.advanced opcode.instructionSet else d)) :
    WhenServed c opcode.execute post := by
  obtain ⟨record, htree⟩ := run_execute_of_block? hb hc hr
  -- a log record is no event
  have hproceed : WhenServed c (do
      CpuM.charge 1
      proceed opcode.instructionSet (← transfer.execute)) post :=
    whenServed_charge_bind (whenServed_proceed opcode.instructionSet flow h)
  unfold WhenServed StepM.Yields
  rw [htree]
  exact hproceed

/-- A block transfer that succeeds after a cycle makes its opcode succeed. -/
theorem succeeds_execute (flow : Flow) {post : Unit → Cpu → σ → Prop}
    (h : Succeeds bus c (bus.answer (.charge 1) state).2 transfer.execute fun ended d t =>
      ended = flow ∧
        post () (if flow = .next then d.advanced opcode.instructionSet else d) t) :
    Succeeds bus c state opcode.execute post := by
  obtain ⟨record, htree⟩ := run_execute_of_block? hb hc hr
  exact succeeds_of_run_eq htree (succeeds_proceed opcode.instructionSet flow h)

end Execute

end Opcode

end Armv4t

import Armv4t.Cpu.Lemmas
import Armv4t.Proofs.Events
import Armv4t.Transfer.Block

/-!
# The words of a block transfer

A block load reads consecutive words and gives each register its word as it arrives; a block store
writes the words of its registers to consecutive addresses.  When the bus fails an access, what has
been done is exactly what concerns the registers before it: `yields_loadWords` and
`yields_storeWords` describe the events, the result and the processor at every end of the two loops.
`BlockTransfer.loaded` is the processor after the words of the first registers have arrived, and
`readIn_loaded` and `readIn_loaded_of_notMem` say what each register of each mode then holds.
-/

namespace Armv4t

/-! ### Consecutive words -/

/-- The address at which word number `k` of a block is accessed. -/
def slot (start : Word) (k : Nat) : Word :=
  Width.word.align (start + 4 * BitVec.ofNat 32 k)

theorem slot_zero (start : Word) : slot start 0 = Width.word.align start := by
  unfold slot
  rw [BitVec.ofNat_eq_ofNat, BitVec.mul_zero, BitVec.add_zero]

theorem slot_succ (start : Word) (k : Nat) : slot start (k + 1) = slot (start + 4) k := by
  unfold slot
  rw [BitVec.ofNat_add, BitVec.mul_add, BitVec.add_comm (4 * BitVec.ofNat 32 k), BitVec.add_assoc]
  rfl

/-- The events of reading words of a block, from the first on. -/
def wordReads (start : Word) (words : List Word) : List BusEvent :=
  words.mapIdx fun k word => .read .word (slot start k) (.ok word)

/-- The events of writing words of a block, from the first on. -/
def wordWrites (start : Word) (words : List Word) : List BusEvent :=
  words.mapIdx fun k word => .write .word (slot start k) word (.ok ())

/-- The read of word number `k` of a block, which the bus fails. -/
def failedRead (start : Word) (k : Nat) (reason : BusFault) : BusEvent :=
  .read .word (slot start k) (.error reason)

/-- The write of word number `k` of a block, which the bus fails. -/
def failedWrite (start : Word) (k : Nat) (word : Word) (reason : BusFault) : BusEvent :=
  .write .word (slot start k) word (.error reason)

theorem wordReads_cons (start word : Word) (rest : List Word) :
    wordReads start (word :: rest) =
      .read .word (Width.word.align start) (.ok word) :: wordReads (start + 4) rest := by
  simp only [wordReads, List.mapIdx_cons, slot_zero, slot_succ]

theorem wordWrites_cons (start word : Word) (rest : List Word) :
    wordWrites start (word :: rest) =
      .write .word (Width.word.align start) word (.ok ()) :: wordWrites (start + 4) rest := by
  simp only [wordWrites, List.mapIdx_cons, slot_zero, slot_succ]

theorem failedRead_succ (start : Word) (k : Nat) (reason : BusFault) :
    failedRead start (k + 1) reason = failedRead (start + 4) k reason := by
  unfold failedRead
  rw [slot_succ]

theorem failedWrite_succ (start : Word) (k : Nat) (word : Word) (reason : BusFault) :
    failedWrite start (k + 1) word reason = failedWrite (start + 4) k word reason := by
  unfold failedWrite
  rw [slot_succ]

/-- No access to a block is a branch. -/
theorem not_isBranch_of_mem_wordReads {start : Word} {words : List Word} {event : BusEvent}
    (h : event ∈ wordReads start words) : ¬event.request.IsBranch := by
  obtain ⟨k, hk, rfl⟩ := List.mem_mapIdx.1 h
  exact id

@[inherit_doc not_isBranch_of_mem_wordReads]
theorem not_isBranch_of_mem_wordWrites {start : Word} {words : List Word} {event : BusEvent}
    (h : event ∈ wordWrites start words) : ¬event.request.IsBranch := by
  obtain ⟨k, hk, rfl⟩ := List.mem_mapIdx.1 h
  exact id

/-! ### The loops over the registers -/

namespace BlockTransfer

variable {c : Cpu}

/-- The ends of a loop that loads registers: every word has arrived, or the bus has failed the read
of the next.  The registers whose words have arrived have been written, in order. -/
inductive LoadEnds (write : Register → Word → Cpu → Cpu) (registers : List Register) (start : Word)
    (c : Cpu) : List BusEvent → Except Fault Unit → Cpu → Prop
  | done (words : List Word) (h : words.length = registers.length) :
    LoadEnds write registers start c (wordReads start words) (.ok ())
      ((registers.zip words).foldl (fun cpu pair => write pair.1 pair.2 cpu) c)
  | failed (words : List Word) (h : words.length < registers.length) (reason : BusFault) :
    LoadEnds write registers start c
      (wordReads start words ++ [failedRead start words.length reason]) (.error (.bus reason))
      ((registers.zip words).foldl (fun cpu pair => write pair.1 pair.2 cpu) c)

theorem yields_loadWords (write : Register → Word → Cpu → Cpu) (registers : List Register)
    (start : Word) :
    StepM.Yields c (loadWords write registers start) (LoadEnds write registers start c) := by
  induction registers generalizing c start with
  | nil => exact .done [] rfl
  | cons register rest ih =>
    -- the two branches are the two answers to the first read
    rintro (reason | word)
    · have h : LoadEnds write (register :: rest) start c _ _ _ :=
        .failed [] (by simp) reason
      rwa [failedRead, List.length_nil, slot_zero] at h
    · refine BusProgram.Yields.mono (ih (start + 4)) ?_
      rintro _ ⟨_, _⟩ (⟨words, hlen⟩ | ⟨words, hlt, reason⟩)
      · have h : LoadEnds write (register :: rest) start c _ _ _ :=
          .done (word :: words) (by simpa using hlen)
        rwa [wordReads_cons] at h
      · have h : LoadEnds write (register :: rest) start c _ _ _ :=
          .failed (word :: words) (by simpa using hlt) reason
        rwa [wordReads_cons, List.length_cons, failedRead_succ] at h

/-- The ends of a loop that stores registers: every word is written, or the bus has failed the write
of one.  The processor is as it was. -/
inductive StoreEnds (value : Register → Word) (registers : List Register) (start : Word)
    (c : Cpu) : List BusEvent → Except Fault Unit → Cpu → Prop
  | done :
    StoreEnds value registers start c (wordWrites start (registers.map value)) (.ok ()) c
  | failed {k : Nat} {register : Register} (h : registers[k]? = some register)
      (reason : BusFault) :
    StoreEnds value registers start c
      (wordWrites start ((registers.take k).map value) ++
        [failedWrite start k (value register) reason]) (.error (.bus reason)) c

theorem yields_storeWords (value : Register → Word) (registers : List Register) (start : Word) :
    StepM.Yields c (storeWords value registers start) (StoreEnds value registers start c) := by
  induction registers generalizing start with
  | nil => exact .done
  | cons register rest ih =>
    -- the bus may refuse the first word
    rintro (reason | ⟨⟩)
    · have h : StoreEnds value (register :: rest) start c _ _ _ :=
        .failed (List.getElem?_cons_zero) reason
      rwa [failedWrite, slot_zero] at h
    -- or take it, and then the others go to the words that follow
    · refine BusProgram.Yields.mono (ih (start + 4)) ?_
      rintro _ ⟨_, d⟩ (_ | ⟨hk, reason⟩)
      · have h : StoreEnds value (register :: rest) start d _ _ _ := .done
        rw [List.map_cons, wordWrites_cons] at h
        exact h
      · have h : StoreEnds value (register :: rest) start d _ _ _ :=
          .failed (List.getElem?_cons_succ.trans hk) reason
        rw [List.take_succ_cons, List.map_cons, wordWrites_cons, failedWrite_succ] at h
        exact h

end BlockTransfer

/-! ### The registers of a block load -/

namespace Cpu

/-- Writes words to registers as a given mode sees them, one after the other, as long as there are
words. -/
def fillIn (cpu : Cpu) (mode : Mode) (registers : List Register) (words : List Word) : Cpu :=
  (registers.zip words).foldl (fun cpu pair => cpu.writeIn mode pair.1 pair.2) cpu

variable {cpu : Cpu} {mode other : Mode} {registers : List Register} {words : List Word}

theorem cpsr_fillIn : (cpu.fillIn mode registers words).cpsr = cpu.cpsr := by
  unfold fillIn
  induction registers.zip words generalizing cpu with
  | nil => rfl
  | cons pair rest ih => rw [List.foldl_cons, ih, cpsr_writeIn]

theorem spsrs_fillIn : (cpu.fillIn mode registers words).spsrs = cpu.spsrs := by
  unfold fillIn
  induction registers.zip words generalizing cpu with
  | nil => rfl
  | cons pair rest ih => rw [List.foldl_cons, ih, spsrs_writeIn]

/-- A register without a word of its own is as it was. -/
theorem readIn_fillIn_of_notMem (hpc : .pc ∉ registers) {read : Register}
    (h : read ∈ registers.take words.length → ¬SameCell mode other read) :
    (cpu.fillIn mode registers words).readIn other read = cpu.readIn other read := by
  induction registers generalizing cpu words with
  | nil => rfl
  | cons register rest ih =>
    cases words with
    | nil => rfl
    | cons word words =>
      rw [List.length_cons, List.take_succ_cons, List.mem_cons] at h
      -- the register read is not the first one, as that has a word to be written
      have hwritten : ¬(read = register ∧ SameCell mode other register) := by
        rintro ⟨rfl, hs⟩
        exact h (.inl rfl) hs
      have hrest : ((cpu.writeIn mode register word).fillIn mode rest words).readIn other read =
          (cpu.writeIn mode register word).readIn other read :=
        ih (fun hm => hpc (List.mem_cons_of_mem _ hm)) fun hm => h (.inr hm)
      refine hrest.trans ?_
      rw [readIn_writeIn _ _ _ fun he => hpc (he ▸ List.mem_cons_self), if_neg hwritten]

/-- A register with a word of its own holds it, in every mode that shares the cell. -/
theorem readIn_fillIn (hpc : .pc ∉ registers) (hn : registers.Nodup) {i : Nat}
    {register : Register} {word : Word} (hr : registers[i]? = some register)
    (hw : words[i]? = some word) (hs : SameCell mode other register) :
    (cpu.fillIn mode registers words).readIn other register = word := by
  induction registers generalizing cpu words i with
  | nil => exact absurd hr (by simp)
  | cons first rest ih =>
    cases words with
    | nil => exact absurd hw (by simp)
    | cons value words =>
      obtain ⟨hnot, hn⟩ := List.nodup_cons.1 hn
      have hpc' : .pc ∉ rest := fun hm => hpc (List.mem_cons_of_mem _ hm)
      cases i with
      | zero =>
        obtain rfl : first = register := Option.some.inj hr
        obtain rfl : value = word := Option.some.inj hw
        -- the words that follow go to other registers
        have hrest : ((cpu.writeIn mode first value).fillIn mode rest words).readIn other first =
            (cpu.writeIn mode first value).readIn other first :=
          readIn_fillIn_of_notMem hpc' fun hm => absurd (List.mem_of_mem_take hm) hnot
        refine hrest.trans ?_
        rw [readIn_writeIn _ _ _ fun he => hpc (he ▸ List.mem_cons_self), if_pos ⟨rfl, hs⟩]
      | succ i => exact ih hpc' hn hr hw

end Cpu

namespace BlockTransfer

variable {c : Cpu} {transfer : BlockTransfer}

/-- The mode whose registers the transfer moves, in a given current mode. -/
def bankMode (transfer : BlockTransfer) (mode : Mode) : Mode :=
  if transfer.isUserBank then .user else mode

/-- The processor after words have arrived for the first listed registers. -/
def loaded (transfer : BlockTransfer) (words : List Word) (cpu : Cpu) : Cpu :=
  cpu.fillIn (transfer.bankMode cpu.mode) transfer.registers words

theorem cpsr_loaded (words : List Word) : (transfer.loaded words c).cpsr = c.cpsr :=
  Cpu.cpsr_fillIn

theorem spsrs_loaded (words : List Word) : (transfer.loaded words c).spsrs = c.spsrs :=
  Cpu.spsrs_fillIn

theorem writeLoaded_eq (register : Register) (value : Word) (cpu : Cpu) :
    transfer.writeLoaded register value cpu =
      cpu.writeIn (transfer.bankMode cpu.mode) register value := by
  unfold writeLoaded bankMode
  split_ifs
  · rfl
  · exact cpu.write_eq_writeIn value

/-- Registers written as their words arrive are filled through one mode, as none of the writes
changes the mode. -/
theorem foldl_writeLoaded (registers : List Register) (words : List Word) (cpu : Cpu) :
    (registers.zip words).foldl (fun cpu pair => transfer.writeLoaded pair.1 pair.2 cpu) cpu =
      cpu.fillIn (transfer.bankMode cpu.mode) registers words := by
  unfold Cpu.fillIn
  induction registers.zip words generalizing cpu with
  | nil => rfl
  | cons pair rest ih =>
    have hmode : (cpu.writeIn (transfer.bankMode cpu.mode) pair.1 pair.2).mode = cpu.mode :=
      congrArg Psr.mode (cpu.cpsr_writeIn _ _ _)
    rw [List.foldl_cons, List.foldl_cons, writeLoaded_eq, ih, hmode]

/-! ### The listed registers -/

/-- The bits that are set in a number are those that a look at each of them finds. -/
theorem cpopNatRec_eq_countP {w : Nat} (value : BitVec w) (n : Nat) :
    value.cpopNatRec n 0 = (List.range n).countP (value.getLsbD ·) := by
  induction n with
  | zero => rfl
  | succ n ih =>
    rw [BitVec.cpopNatRec_succ, BitVec.cpopNatRec_add, ih, List.range_succ, List.countP_append,
      List.countP_singleton]
    cases value.getLsbD n <;> rfl

/-- As many registers are listed as bits are set in the list. -/
theorem length_registers (transfer : BlockTransfer) :
    transfer.registers.length = transfer.list.cpop.toNat := by
  have hrange : List.range 16 = (List.finRange 16).map Fin.val := by decide
  have hlists : transfer.lists ∘ Register.ofIndex =
      fun number : Fin 16 => transfer.list.getLsbD number := by
    funext number
    simp [lists]
  rw [BitVec.toNat_cpop, cpopNatRec_eq_countP, hrange, List.countP_map, registers,
    ← List.countP_eq_length_filter, Register.all, List.countP_map, hlists]
  rfl

/-- The program counter is the last of the listed registers. -/
theorem registers_eq (transfer : BlockTransfer) :
    transfer.registers =
      transfer.generalRegisters ++ if transfer.lists .pc then [.pc] else [] := by
  have hall : Register.all = Register.general ++ [.pc] := by decide
  unfold registers generalRegisters
  rw [hall, List.filter_append, List.filter_cons, List.filter_nil]

theorem pc_notMem_generalRegisters : .pc ∉ transfer.generalRegisters := by
  intro h
  have hg := (List.mem_filter.1 h).1
  exact absurd (List.mem_filter.1 hg).2 (by decide)

theorem nodup_generalRegisters : transfer.generalRegisters.Nodup := by
  have hgeneral : Register.general.Nodup := by decide
  exact hgeneral.filter _

theorem length_registers_le (transfer : BlockTransfer) :
    transfer.registers.length ≤ transfer.generalRegisters.length + 1 := by
  rw [registers_eq, List.length_append]
  split_ifs
  · exact Nat.le_refl _
  · exact Nat.le_succ _

theorem length_registers_of_lists (h : transfer.lists .pc = true) :
    transfer.registers.length = transfer.generalRegisters.length + 1 := by
  rw [registers_eq, if_pos h, List.length_append, List.length_singleton]

theorem length_generalRegisters_le (transfer : BlockTransfer) :
    transfer.generalRegisters.length ≤ transfer.registers.length := by
  rw [registers_eq, List.length_append]
  exact Nat.le_add_right _ _

section FewerWords

variable {words : List Word} (h : words.length < transfer.registers.length)

include h

/-- Words that are fewer than the listed registers are those of general registers. -/
theorem length_le_generalRegisters : words.length ≤ transfer.generalRegisters.length :=
  Nat.lt_succ_iff.1 (Nat.lt_of_lt_of_le h transfer.length_registers_le)

theorem take_registers :
    transfer.registers.take words.length = transfer.generalRegisters.take words.length := by
  rw [registers_eq, List.take_append_of_le_length (length_le_generalRegisters h)]

theorem loaded_eq (cpu : Cpu) :
    transfer.loaded words cpu =
      cpu.fillIn (transfer.bankMode cpu.mode) transfer.generalRegisters words := by
  have hle := length_le_generalRegisters h
  have hzip : transfer.registers.zip words = transfer.generalRegisters.zip words := by
    rw [List.zip_eq_zip_take_min, Nat.min_eq_right (Nat.le_of_lt h), take_registers h]
    conv_rhs => rw [List.zip_eq_zip_take_min, Nat.min_eq_right hle]
  unfold loaded Cpu.fillIn
  rw [hzip]

/-- Each of the first listed registers holds its word, in every mode that shares its cell with the
mode whose registers are moved. -/
theorem readIn_loaded {i : Nat} {register : Register} {word : Word}
    (hr : transfer.registers[i]? = some register) (hw : words[i]? = some word) {mode : Mode}
    (hs : Cpu.SameCell (transfer.bankMode c.mode) mode register) :
    (transfer.loaded words c).readIn mode register = word := by
  have hi : i < words.length := (List.getElem?_eq_some_iff.1 hw).1
  have hr' : transfer.generalRegisters[i]? = some register := by
    rw [registers_eq, List.getElem?_append_left] at hr
    · exact hr
    · exact Nat.lt_of_lt_of_le hi (length_le_generalRegisters h)
  rw [loaded_eq h]
  exact Cpu.readIn_fillIn pc_notMem_generalRegisters nodup_generalRegisters hr' hw hs

/-- Every other register is as it was. -/
theorem readIn_loaded_of_notMem {mode : Mode} {register : Register}
    (hn : register ∈ transfer.registers.take words.length →
      ¬Cpu.SameCell (transfer.bankMode c.mode) mode register) :
    (transfer.loaded words c).readIn mode register = c.readIn mode register := by
  rw [take_registers h] at hn
  rw [loaded_eq h]
  exact Cpu.readIn_fillIn_of_notMem pc_notMem_generalRegisters hn

theorem pc_loaded : (transfer.loaded words c).pc = c.pc := by
  have hn : .pc ∉ transfer.registers.take words.length := by
    rw [take_registers h]
    exact fun hm => pc_notMem_generalRegisters (List.mem_of_mem_take hm)
  -- every mode sees the same program counter
  have hread : (transfer.loaded words c).readIn c.mode .pc = c.readIn c.mode .pc :=
    readIn_loaded_of_notMem h fun hm => absurd hm hn
  exact hread

end FewerWords

end BlockTransfer

end Armv4t

import Armv4t.Proofs.BlockAddressing
import Armv4t.Proofs.StackedReturn

/-!
# Saving registers in a block and getting them back

A store with write-back leaves the base at the other end of its block, and a load that goes the
other way from there finds the block again (`AddressingMode.start_inverse`) and leaves the base
where it was (`AddressingMode.final_inverse`).  The main result,
`storeMultiple_loadMultiple_restores`, says that such a load undoes the store: on a bus that keeps
the words of the block, the listed registers and the base are as before the store, whatever has been
done to the listed registers in between.  A push of the link register and a pop of the program
counter are no such pair, and are a call's way in and its way out.
-/

namespace Armv4t

open StepM

/-! ### Going the other way -/

namespace AddressingMode

/-- The way back over a block from the base that has been written back. -/
def inverse : AddressingMode → AddressingMode
  | incrementAfter => decrementBefore
  | incrementBefore => decrementAfter
  | decrementAfter => incrementBefore
  | decrementBefore => incrementAfter

/-- The way back starts at the same word. -/
theorem start_inverse (mode : AddressingMode) (base : Word) (n : Nat) :
    mode.inverse.start (mode.final base n) n = mode.start base n := by
  cases mode with
  | incrementAfter => exact BitVec.add_sub_cancel _ _
  -- the two that step before the access lie a word further on, both ways
  | incrementBefore => exact congrArg (· + 4) (BitVec.add_sub_cancel _ _)
  | decrementAfter | decrementBefore => rfl

/-- The way back ends where the way out has begun. -/
theorem final_inverse (mode : AddressingMode) (base : Word) (n : Nat) :
    mode.inverse.final (mode.final base n) n = base := by
  cases mode with
  | incrementAfter | incrementBefore => exact BitVec.add_sub_cancel _ _
  | decrementAfter | decrementBefore => exact BitVec.sub_add_cancel _ _

end AddressingMode

namespace BlockTransfer

variable {c d : Cpu} {save restore : BlockTransfer}

/-- The load of the same registers that goes the other way. -/
def inverse (save : BlockTransfer) : BlockTransfer :=
  { save with load := true, up := !save.up, pre := !save.pre }

theorem addressing_inverse (save : BlockTransfer) :
    save.inverse.addressing = save.addressing.inverse := by
  unfold inverse addressing
  cases save.up <;> cases save.pre <;> rfl

/-- A store with write-back of registers other than its base and the program counter. -/
structure Saves (save : BlockTransfer) : Prop where
  load : save.load = false
  writeBack : save.writeBack = true
  mark : save.mark = false
  list : save.list ≠ 0
  base : save.lists save.base = false
  pc : save.lists .pc = false
  base_ne_pc : save.base ≠ .pc

namespace Saves

variable (h : save.Saves)

include h

theorem refusal?_eq_none : save.refusal? = none :=
  BlockTransfer.refusal?_eq_none (fun _ => h.base_ne_pc) h.list

theorem ne_of_lists {register : Register} (hl : save.lists register = true) :
    register ≠ save.base ∧ register ≠ .pc := by
  constructor
  · rintro rfl
    rw [h.base] at hl
    nomatch hl
  · rintro rfl
    rw [h.pc] at hl
    nomatch hl

/-- The listed registers are stored as they are. -/
theorem map_storedValue : save.registers.map (save.storedValue c) = save.registers.map c.read := by
  apply List.map_congr_left
  intro register hr
  obtain ⟨k, hk⟩ := List.mem_iff_getElem?.1 hr
  -- a listed register is neither the base nor the program counter, which the table stores otherwise
  obtain ⟨hbase, hpc⟩ := h.ne_of_lists (List.mem_filter.1 hr).2
  rw [storedValue_eq_tableValue h.mark hk]
  unfold tableValue Cpu.readLate
  rw [if_neg fun both => hbase both.2, if_neg hpc]

/-- The processor after the store differs from the one before it in the base alone. -/
theorem read_writtenBack :
    (save.writtenBack c).read save.base = save.addressing.final (c.read save.base) save.count := by
  unfold writtenBack
  rw [if_pos h.writeBack, Cpu.read_write _ _ h.base_ne_pc, if_pos rfl, final_eq]

end Saves

theorem count_inverse : save.inverse.count = save.count :=
  rfl

/-- A load that gives back to the listed registers and to the base what they held has undone what
was done to them. -/
theorem agreesBut_filled_back (restore : BlockTransfer) {touched touched' : Register → Prop}
    (h : c.AgreesBut c.mode touched d) (hm : restore.mark = false)
    (hw : restore.writeBack = true) (hl : restore.lists restore.base = false)
    (hpc : restore.base ≠ .pc)
    (hback : restore.final (d.read restore.base) = c.read restore.base)
    (imp : ∀ register, touched register →
      register ∈ restore.generalRegisters ∨ register = restore.base ∨ touched' register) :
    c.AgreesBut c.mode touched' (restore.filled (restore.generalRegisters.map c.read) d) := by
  have hreads : restore.generalRegisters.map c.read =
      restore.generalRegisters.map (c.readIn c.mode) := by
    apply List.map_congr_left
    intro register _
    exact (c.readIn_mode register).symm
  -- first the listed registers get back what they held
  have hfill : c.AgreesBut c.mode (fun register => register = restore.base ∨ touched' register)
      (d.fillIn c.mode restore.generalRegisters
        (restore.generalRegisters.map (c.readIn c.mode))) :=
    h.refill pc_notMem_generalRegisters nodup_generalRegisters imp
  -- then the base, which is not among them
  rw [filled_of_writeBack hw hl, bankMode_of_mark hm, h.mode_eq, hreads, hback,
    Cpu.write_eq_writeIn, hfill.mode_eq, ← c.readIn_mode restore.base]
  apply hfill.restore hpc
  intro register hr
  exact hr

/-! ### Between store and load -/

/-- What is left of a store while other use is made of its registers: they and the base are all that
has changed, the base is as it was written back, and the block holds what the registers held. -/
structure SavedIn (save : BlockTransfer) (c d : Cpu) (now : WordMap) : Prop where
  others : c.AgreesBut c.mode
    (fun register => save.lists register = true ∨ register = save.base) d
  base : d.read save.base = save.addressing.final (c.read save.base) save.count
  words {k : Nat} (hk : k < save.count) :
    now (save.address c k) = (save.registers.map c.read)[k]?

/-- So it is after the store. -/
theorem Saves.savedIn (hs : save.Saves) (set : InstructionSet) (contents : WordMap) :
    save.SavedIn c ((save.writtenBack c).advanced set)
      (contents.store (save.start (c.read save.base)) (save.registers.map c.read)) where
  others := by
    apply ((agreesBut_writtenBack fun _ => hs.base_ne_pc).withPc _).mono
    intro register hr
    exact .inr hr.2
  base := (Cpu.read_withPc _ _ hs.base_ne_pc).trans hs.read_writtenBack
  words := store_address c.read

/-- And it stays so as long as neither the base nor the block is touched. -/
theorem SavedIn.later {now later : WordMap} (h : save.SavedIn c d now) (hs : save.Saves) {e : Cpu}
    (hd : d.AgreesBut c.mode (fun register => save.lists register = true) e)
    (hlater : ∀ k < save.count, later (save.address c k) = now (save.address c k)) :
    save.SavedIn c e later where
  others := h.others.trans (hd.mono fun register => .inl)
  base := by
    -- the listed registers do not include the base
    rw [← h.others.mode_eq] at hd
    rw [hd.read_eq hs.base_ne_pc (ne_true_of_eq_false hs.base)]
    exact h.base
  words {k} hk := (hlater k hk).trans (h.words hk)

/-- The load that goes the other way leaves nothing changed. -/
theorem SavedIn.agreesBut_filled {now : WordMap} (h : save.SavedIn c d now) (hs : save.Saves) :
    c.AgreesBut c.mode (fun _ => False)
      (save.inverse.filled (save.inverse.generalRegisters.map c.read) d) := by
  -- the base goes back to where it was
  have hback : save.inverse.final (d.read save.base) = c.read save.base := by
    rw [final_eq, addressing_inverse, count_inverse, h.base, AddressingMode.final_inverse]
  apply agreesBut_filled_back save.inverse h.others hs.mark hs.writeBack hs.base hs.base_ne_pc
    hback
  rintro register (hlists | hbase)
  -- every register that may have changed is loaded or is the base
  · exact .inl (mem_generalRegisters.2 ⟨hlists, (hs.ne_of_lists hlists).2⟩)
  · exact .inr (.inl hbase)

/-- The load that goes the other way finds the same block. -/
theorem SavedIn.address_inverse {now : WordMap} (h : save.SavedIn c d now) (k : Nat) :
    save.inverse.address d k = save.address c k := by
  unfold address
  rw [addressing_inverse, count_inverse]
  show slot (save.addressing.inverse.start (d.read save.base) save.count) k = _
  rw [h.base, AddressingMode.start_inverse]

end BlockTransfer

/-! ### Push and pop -/

namespace ThumbInstruction

/-- A push of the link register is the store on a descending stack. -/
theorem pushTransfer_eq (list : BitVec 8) :
    pushTransfer true list = saveTransfer (0#5 ++ list) := by
  have hlist : 0b010#3 ++ (0#5 ++ list) = 0x40#8 ++ list := BitVec.append_assoc.symm
  exact congrArg (fun bits => { saveTransfer 0 with list := bits }) hlist.symm

/-- A pop of the program counter is the load from a descending stack, but for the status. -/
theorem popTransfer_eq (list : BitVec 8) :
    popTransfer true list = { restoreTransfer (0#5 ++ list) with mark := false } := by
  have hlist : 0b100#3 ++ (0#5 ++ list) = 0x80#8 ++ list := BitVec.append_assoc.symm
  exact congrArg (fun bits => { restoreTransfer 0 with list := bits, mark := false }) hlist.symm

section Lists

variable (list : BitVec 8)

theorem registers_pushTransfer :
    (pushTransfer true list).registers = savedRegisters (0#5 ++ list) ++ [.lr] := by
  rw [pushTransfer_eq]
  exact registers_saveTransfer _

theorem generalRegisters_popTransfer :
    (popTransfer true list).generalRegisters = savedRegisters (0#5 ++ list) := by
  rw [popTransfer_eq]
  exact generalRegisters_restoreTransfer _

theorem lists_popTransfer_pc : (popTransfer true list).lists .pc = true := by
  rw [popTransfer_eq]
  exact lists_restoreTransfer_pc _

theorem lists_popTransfer_sp : (popTransfer true list).lists .sp = false := by
  rw [popTransfer_eq]
  exact lists_restoreTransfer_sp _

/-- A push lists registers that are saved, and the link register. -/
theorem lists_pushTransfer {register : Register} :
    (pushTransfer true list).lists register = true ↔
      register ∈ savedRegisters (0#5 ++ list) ∨ register = .lr := by
  have hmem : (pushTransfer true list).lists register = true ↔
      register ∈ (pushTransfer true list).registers := by
    -- to be listed is to be among the registers in ascending order
    unfold BlockTransfer.registers
    rw [List.mem_filter]
    exact (and_iff_right register.mem_all).symm
  rw [hmem, registers_pushTransfer, List.mem_append, List.mem_singleton]

/-- The two move as many words. -/
theorem count_popTransfer : (popTransfer true list).count = (pushTransfer true list).count := by
  rw [BlockTransfer.count_eq, BlockTransfer.count_eq,
    BlockTransfer.length_registers_of_lists (lists_popTransfer_pc list),
    generalRegisters_popTransfer, registers_pushTransfer, List.length_append,
    List.length_singleton]

theorem saves_pushTransfer : (pushTransfer true list).Saves where
  load := rfl
  writeBack := rfl
  mark := rfl
  list := BlockTransfer.list_ne_zero ((lists_pushTransfer list).2 (.inr rfl))
  base := by
    apply Bool.eq_false_iff.2
    rw [ne_eq, lists_pushTransfer]
    rintro (hm | hlr)
    -- a push saves neither the stack pointer nor the program counter
    · exact (ne_of_mem_savedRegisters _ hm).1 rfl
    · nomatch hlr
  pc := by
    apply Bool.eq_false_iff.2
    rw [ne_eq, lists_pushTransfer]
    rintro (hm | hlr)
    · exact (ne_of_mem_savedRegisters _ hm).2.2 rfl
    · nomatch hlr
  base_ne_pc := nofun

section SavedIn

variable {c d : Cpu} {now : WordMap} (h : (pushTransfer true list).SavedIn c d now)

include h

/-- The pop after a push leaves nothing changed but the link register. -/
theorem agreesBut_filled_popTransfer :
    c.AgreesBut c.mode (· = .lr) ((popTransfer true list).filled
      ((popTransfer true list).generalRegisters.map c.read) d) := by
  -- the stack pointer has gone down by the words of the push
  have hsp : d.read .sp =
      AddressingMode.decrementBefore.final (c.read .sp) (pushTransfer true list).count := h.base
  have hback : (popTransfer true list).final (d.read .sp) = c.read .sp := by
    rw [BlockTransfer.final_eq, count_popTransfer, hsp]
    exact AddressingMode.final_inverse .decrementBefore _ _
  apply BlockTransfer.agreesBut_filled_back (popTransfer true list) h.others rfl rfl
    (lists_popTransfer_sp list) nofun hback
  rintro register (hlists | hbase)
  · rw [generalRegisters_popTransfer]
    -- a register that was listed is loaded again, or is the link register
    rcases (lists_pushTransfer list).1 hlists with hm | hlr
    · exact .inl hm
    · exact .inr (.inr hlr)
  · exact .inr (.inl hbase)

/-- The pop finds the block of the push. -/
theorem address_popTransfer (k : Nat) :
    (popTransfer true list).address d k = (pushTransfer true list).address c k := by
  have hsp : d.read (popTransfer true list).base = _ := h.base
  unfold BlockTransfer.address
  rw [count_popTransfer, hsp]
  exact congrArg (slot · k) (AddressingMode.start_inverse .decrementBefore _ _)

end SavedIn

/-- A push stores the values of the registers that a pop loads, and then that of the link
register. -/
theorem map_registers_pushTransfer {c : Cpu} :
    (pushTransfer true list).registers.map c.read =
      (popTransfer true list).generalRegisters.map c.read ++ [c.read .lr] := by
  rw [registers_pushTransfer, generalRegisters_popTransfer, List.map_append, List.map_singleton]

theorem refusal?_popTransfer : (popTransfer true list).refusal? = none := by
  apply BlockTransfer.refusal?_eq_none
  · intro _
    nofun
  · exact BlockTransfer.list_ne_zero (lists_popTransfer_pc list)

end Lists

end ThumbInstruction

/-! ### The pairs -/

open BlockTransfer ThumbInstruction

section Pairs

variable {σ : Type} {bus : Bus σ} {block : Word → Prop} {holds : σ → WordMap → Prop} {c d : Cpu}
  {t : σ} {now : WordMap} {restoring : Opcode} {save : BlockTransfer}
  (hk : bus.KeepsWords block holds) (hh : holds t now) (hc : restoring.holds d.cpsr.flags = true)

include hk hh hc

/-- The load that goes the other way undoes the store. -/
theorem succeeds_inverse (hs : save.Saves) (hb : restoring.block? = some save.inverse)
    (h : save.SavedIn c d now) :
    Succeeds bus d t restoring.execute fun _ e _ => c.AgreesBut c.mode (fun _ => False) e := by
  -- without the program counter, the registers loaded are those stored
  have hregisters : save.inverse.generalRegisters = save.registers := generalRegisters_eq hs.pc
  have hrefusal : save.inverse.refusal? = none :=
    refusal?_eq_none (fun _ => hs.base_ne_pc) hs.list
  have hlen : (save.inverse.generalRegisters.map c.read).length = save.count := by
    rw [hregisters, List.length_map, count_eq]
  -- each register finds its own word again
  have hfound : ∀ k < save.count, now (save.inverse.address d k) =
      (save.inverse.generalRegisters.map c.read)[k]? := by
    intro k hlt
    rw [h.address_inverse, hregisters]
    exact h.words hlt
  apply (succeeds_blockLoad hk hh hb hc hrefusal rfl hs.pc hlen hfound).mono
  rintro _ _ _ rfl
  exact (h.agreesBut_filled hs).withPc _

/-- The pop undoes the push, and goes on where the link register has pointed. -/
theorem succeeds_pop {list : BitVec 8} (hb : restoring.block? = some (popTransfer true list))
    (h : (pushTransfer true list).SavedIn c d now) :
    Succeeds bus d t restoring.execute fun _ e _ => c.AgreesBut c.mode (· = .lr) e ∧
      e.fetchAddress = c.instructionSet.align (c.read .lr) := by
  -- the words of the low registers, and behind them that of the link register
  have hfound : ∀ k < (popTransfer true list).count, now ((popTransfer true list).address d k) =
      ((popTransfer true list).generalRegisters.map c.read ++ [c.read .lr])[k]? := by
    intro k hlt
    rw [count_popTransfer] at hlt
    rw [address_popTransfer list h, ← map_registers_pushTransfer]
    exact h.words hlt
  apply (succeeds_blockLoad_pc hk hh hb hc (refusal?_popTransfer list) rfl
    (lists_popTransfer_pc list) rfl (List.length_map _) hfound).mono
  rintro _ _ _ rfl
  -- the branch keeps the instruction set, which is that of the call
  refine ⟨(agreesBut_filled_popTransfer list h).withPc _, ?_⟩
  rw [Cpu.fetchAddress_branched, instructionSet_filled, h.others.instructionSet_eq]

end Pairs

/-- **Store-multiple and load-multiple are inverse.**  Let a store with write-back put registers
other than its base and the program counter on a block of words that the bus keeps.  It succeeds;
and whatever is then done to the listed registers, and to the bus as long as it holds the words of
the block, the load with write-back that goes the other way succeeds and leaves every register as
every mode sees it, the status and the saved statuses as they were before the store.  After a push
of low registers and the link register in Thumb state, a pop of the low registers and the program
counter does so as well but for the link register, and goes on at the address that was in the link
register, in Thumb state. -/
theorem storeMultiple_loadMultiple_restores {σ : Type} (bus : Bus σ) (block : Word → Prop)
    (holds : σ → WordMap → Prop) (hk : bus.KeepsWords block holds) (c : Cpu) (state : σ)
    (contents : WordMap) (hh : holds state contents) (saving restoring : Opcode)
    (save restore : BlockTransfer) (hsave : saving.block? = some save)
    (hrestore : restoring.block? = some restore) (hs : save.Saves)
    (hsaving : saving.holds c.cpsr.flags = true)
    (hrestoring : restoring.holds c.cpsr.flags = true)
    (hblock : ∀ k < save.count, block (save.address c k)) :
    let saved := saving.execute.runOn bus c state
    saved.value.1 = .ok () ∧ ∃ kept, holds saved.state kept ∧
      (∀ k < save.count, kept (save.address c k) = (save.registers.map c.read)[k]?) ∧
      ∀ (d : Cpu) (t : σ) (now : WordMap),
        saved.value.2.AgreesBut c.mode (fun register => save.lists register = true) d →
        holds t now →
        (∀ k < save.count, now (save.address c k) = kept (save.address c k)) →
        let run := restoring.execute.runOn bus d t
        (restore = save.inverse →
          run.value.1 = .ok () ∧ c.AgreesBut c.mode (fun _ => False) run.value.2) ∧
        (∀ list, save = pushTransfer true list → restore = popTransfer true list →
          c.instructionSet = .thumb →
            run.value.1 = .ok () ∧ c.AgreesBut c.mode (· = .lr) run.value.2 ∧
              run.value.2.fetchAddress = c.read .lr &&& ~~~1#32 ∧
                run.value.2.instructionSet = .thumb) := by
  intro saved
  obtain ⟨_, hok, hsaved, hheld⟩ :=
    (succeeds_blockStore hk hh hsave hsaving hs.refusal?_eq_none hs.load hblock).run
  rw [hs.map_storedValue] at hheld
  -- the words kept are those of the block, which the store has filled
  have hafter := hs.savedIn (c := c) saving.instructionSet contents
  refine ⟨hok, _, hheld, fun k hlt => hafter.words hlt, ?_⟩
  intro d t now hagrees ht hnow run
  have hended : saved.value.2 = (save.writtenBack c).advanced saving.instructionSet := hsaved
  rw [hended] at hagrees
  have hlater : save.SavedIn c d now := hafter.later hs hagrees hnow
  -- the flags are those of the store, on which the condition was to hold
  have hflags : restoring.holds d.cpsr.flags = true := by
    rw [hlater.others.cpsr]
    exact hrestoring
  constructor
  · rintro rfl
    obtain ⟨_, hr, hend⟩ := (succeeds_inverse hk ht hflags hs hrestore hlater).run
    exact ⟨hr, hend⟩
  · rintro list rfl rfl hthumb
    obtain ⟨_, hr, hend, haddress⟩ := (succeeds_pop hk ht hflags hrestore hlater).run
    rw [hthumb] at haddress
    exact ⟨hr, hend, haddress, hend.instructionSet_eq.trans hthumb⟩

/-- A processor with a value in R0 and an unaligned address close to zero in R1. -/
def savingProgram : Cpu :=
  (fastHandler.write (.ofField 0#4) 0x1111).write (.ofField 1#4) 6

/-- The store of R0 and R2 below R1. -/
def savingTransfer : BlockTransfer where
  load := false
  base := .ofField 1#4
  list := 5
  up := false
  pre := true
  writeBack := true
  mark := false

/-- A procedure in Thumb state, called from an odd address, with the stack close to zero. -/
def calledProgram : Cpu :=
  ((fastHandler.withInstructionSet .thumb).write .sp 6).write .lr 0x101

/-- The two words of either block lie on both sides of the address zero.  R0 is overwritten between
store and load, and the procedure returns at once. -/
theorem storeMultiple_loadMultiple_restores_wrapping :
    let memory : Memory := { regions := [⟨0xFFFFFFF0, 0x10, false⟩, ⟨0, 0x10, false⟩] }
    let saved := (Opcode.arm 0xE9210005).execute.runOn Memory.bus savingProgram memory
    let loaded := (Opcode.arm 0xE8B10005).execute.runOn Memory.bus
      (saved.value.2.writeIn .fiq (.low 0) 0) saved.state
    let pushed := (Opcode.thumb 0xB501).execute.runOn Memory.bus calledProgram memory
    let popped := (Opcode.thumb 0xBD01).execute.runOn Memory.bus pushed.value.2 pushed.state
    (loaded.value.1 = .ok () ∧ loaded.value.2.read (.low 0) = 0x1111 ∧
      loaded.value.2.read (.low 1) = 6) ∧
    popped.value.1 = .ok () ∧ popped.value.2.read .sp = 6 ∧
      popped.value.2.fetchAddress = 0x100 := by
  intro memory saved loaded pushed popped
  have hregions : ∀ address, address = 0xFFFFFFFC ∨ address = 0 →
      Width.word.align address = address ∧
        ∃ region, memory.regions.find? (·.contains address .word) = some region ∧
          region.readOnly = false := by
    -- the two words of a block that goes round the address zero
    rintro address (rfl | rfl)
    · exact ⟨rfl, ⟨0xFFFFFFF0, 0x10, false⟩, by decide, rfl⟩
    · exact ⟨rfl, ⟨0, 0x10, false⟩, by decide, rfl⟩
  have hkeeps := Memory.keepsWords hregions
  constructor
  · have hsaves : savingTransfer.Saves :=
      ⟨rfl, rfl, rfl, by decide, by decide, by decide, by decide⟩
    have hblock : ∀ k < savingTransfer.count,
        savingTransfer.address savingProgram k = 0xFFFFFFFC ∨
          savingTransfer.address savingProgram k = 0 := by
      decide
    obtain ⟨-, kept, hkept, -, hrestores⟩ :=
      storeMultiple_loadMultiple_restores Memory.bus _ _ hkeeps
        savingProgram memory (fun _ => none) ⟨rfl, fun _ _ hn => nomatch hn⟩ (.arm 0xE9210005)
        (.arm 0xE8B10005) savingTransfer savingTransfer.inverse (by decide) (by decide) hsaves
        (by decide) (by decide) hblock
    have hagrees : saved.value.2.AgreesBut .fiq
        (fun register => savingTransfer.lists register = true)
        (saved.value.2.writeIn .fiq (.low 0) 0) :=
      (Cpu.AgreesBut.refl _).writeIn (by decide) (by decide) 0
    -- R0 is listed, so that it may be overwritten
    obtain ⟨hr, hend⟩ := (hrestores _ _ kept hagrees hkept fun _ _ => rfl).1 rfl
    exact ⟨hr, hend.read_eq (by decide) not_false, hend.read_eq (by decide) not_false⟩
  · have hblock : ∀ k < (pushTransfer true 1).count,
        (pushTransfer true 1).address calledProgram k = 0xFFFFFFFC ∨
          (pushTransfer true 1).address calledProgram k = 0 := by
      decide
    obtain ⟨-, kept, hkept, -, hrestores⟩ :=
      storeMultiple_loadMultiple_restores Memory.bus _ _ hkeeps
        calledProgram memory (fun _ => none) ⟨rfl, fun _ _ hn => nomatch hn⟩ (.thumb 0xB501)
        (.thumb 0xBD01) (pushTransfer true 1) (popTransfer true 1) (by decide) (by decide)
        (saves_pushTransfer 1) rfl rfl hblock
    obtain ⟨hr, hend, haddress, -⟩ :=
      (hrestores _ _ kept (Cpu.AgreesBut.refl _) hkept fun _ _ => rfl).2 1 rfl rfl rfl
    exact ⟨hr, hend.read_eq (by decide) (by decide), haddress⟩

end Armv4t

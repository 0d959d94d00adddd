import Armv4t.Proofs.BlockAddressing
import Armv4t.Proofs.Memory

/-!
# Saving the registers of User mode

A handler saves the registers of the program it has interrupted with a block store that is marked
`^`, and gives them back with such a load.  Both are about the cells that User mode sees, wherever
these are while another mode is current: the store reads them (`StoresUserContext`), and the load
writes them and no other cell of any mode (`LoadsUserContext`).  The main result,
`userBlock_saves_and_restores`, adds that the load undoes whatever has happened to the cells since
the store.
-/

namespace Armv4t

open StepM

variable {c : Cpu} {transfer : BlockTransfer}

namespace BlockTransfer

/-- A transfer of registers of User mode without write-back. -/
structure OfUser (transfer : BlockTransfer) : Prop where
  mark : transfer.mark = true
  writeBack : transfer.writeBack = false
  list : transfer.list ≠ 0
  /-- A load with the mark and the program counter is a return from an exception instead. -/
  loadsPc : transfer.loadsPc = false

namespace OfUser

variable (h : transfer.OfUser)

include h

theorem refusal?_eq_none : transfer.refusal? = none := by
  apply BlockTransfer.refusal?_eq_none
  · intro hw
    rw [h.writeBack] at hw
    nomatch hw
  · exact h.list

theorem isUserBank : transfer.isUserBank = true := by
  unfold BlockTransfer.isUserBank
  rw [h.mark, h.loadsPc]
  rfl

theorem bankMode (mode : Mode) : transfer.bankMode mode = .user :=
  if_pos h.isUserBank

theorem lists_pc (hload : transfer.load = true) : transfer.lists .pc = false := by
  have hloads := h.loadsPc
  unfold BlockTransfer.loadsPc at hloads
  rwa [hload, Bool.true_and] at hloads

/-- Loading fills the cells of User mode. -/
theorem filled_eq (words : List Word) :
    transfer.filled words c = c.fillIn .user transfer.generalRegisters words := by
  have hback : ¬(transfer.writeBack ∧ !transfer.lists transfer.base) := by
    rw [h.writeBack]
    exact fun both => nomatch both.1
  unfold filled writeBackLoaded
  rw [if_neg hback, h.bankMode]

theorem writtenBack_eq : transfer.writtenBack c = c := by
  unfold writtenBack
  rw [h.writeBack, if_neg Bool.false_ne_true]

end OfUser

/-- The word that is stored for a register of User mode; the program counter is stored one word
further ahead. -/
def userWord (c : Cpu) (register : Register) : Word :=
  if register = .pc then c.readLate register else c.readIn .user register

theorem OfUser.storedValue_eq (h : transfer.OfUser) (register : Register) :
    transfer.storedValue c register = userWord c register := by
  have hbase : ¬(transfer.writeBack = true ∧ register = transfer.base) := by
    rw [h.writeBack]
    exact fun both => nomatch both.1
  unfold storedValue userWord
  dsimp only
  rw [if_neg hbase]
  by_cases hpc : register = .pc
  · rw [if_pos hpc, if_neg fun both => both.1 hpc]
  · rw [if_neg hpc, if_pos ⟨hpc, h.isUserBank⟩]

theorem OfUser.map_storedValue (h : transfer.OfUser) :
    transfer.registers.map (transfer.storedValue c) = transfer.registers.map (userWord c) := by
  apply List.map_congr_left
  intro register _
  exact h.storedValue_eq register

/-! ### Stores and loads -/

/-- What a store of registers of User mode has done: their words are written upwards from the start
of the block, and the program counter has moved on; no other register of any mode has changed. -/
structure StoresUserContext (transfer : BlockTransfer) (set : InstructionSet) (c : Cpu)
    (events : List BusEvent) (d : Cpu) : Prop where
  length : transfer.registers.length = transfer.count
  events : events = .charge 1 ::
    wordWrites (transfer.addressing.start (c.read transfer.base) transfer.count)
      (transfer.registers.map (userWord c))
  others : c.AgreesBut .user (fun _ => False) d
  pc : d.pc = c.pc + set.size

/-- What a load of registers of User mode has done: the words of the block are read upwards from its
start, each listed register of User mode holds its word, in every mode that shares the cell, and the
program counter has moved on; no other register of any mode has changed, and no status. -/
structure LoadsUserContext (transfer : BlockTransfer) (set : InstructionSet) (c : Cpu)
    (words : List Word) (events : List BusEvent) (d : Cpu) : Prop where
  length : words.length = transfer.count
  events : events = .charge 1 ::
    (wordReads (transfer.addressing.start (c.read transfer.base) transfer.count) words ++
      [.charge 1])
  register {k : Nat} {register : Register} {word : Word} {mode : Mode}
    (hr : transfer.registers[k]? = some register) (hw : words[k]? = some word)
    (hs : Cpu.SameCell .user mode register) : d.readIn mode register = word
  others : c.AgreesBut .user (fun register => transfer.lists register = true) d
  pc : d.pc = c.pc + set.size

end BlockTransfer

section Opcodes

variable {opcode : Opcode} (hb : opcode.block? = some transfer)
  (hc : opcode.holds c.cpsr.flags = true) (hu : transfer.OfUser)

include hb hc hu

open BlockTransfer

/-- A store of registers of User mode, when the bus serves it. -/
theorem whenServed_userStore (hload : transfer.load = false) :
    WhenServed c opcode.execute fun events _ d =>
      transfer.StoresUserContext opcode.instructionSet c events d := by
  apply Opcode.whenServed_execute hb hc hu.refusal?_eq_none .next
  apply whenServed_get_bind
  rw [if_neg (ne_true_of_eq_false hload)]
  apply whenServed_executeStore.mono
  rintro _ _ _ ⟨rfl, rfl, rfl⟩
  rw [hu.writtenBack_eq, hu.map_storedValue, start_eq]
  exact ⟨rfl, transfer.count_eq.symm, rfl, (Cpu.AgreesBut.refl c).withPc _, rfl⟩

/-- A load of registers of User mode, when the bus serves it. -/
theorem whenServed_userLoad (hload : transfer.load = true) :
    WhenServed c opcode.execute fun events _ d =>
      ∃ words, transfer.LoadsUserContext opcode.instructionSet c words events d := by
  -- the program counter is not listed, so that the load ends behind its last word
  have hpc := hu.lists_pc hload
  have hregisters := generalRegisters_eq hpc
  apply Opcode.whenServed_execute hb hc hu.refusal?_eq_none .next
  apply whenServed_get_bind
  rw [if_pos hload]
  apply (whenServed_executeLoad hpc).mono
  rintro _ _ _ ⟨words, hlen, rfl, rfl, rfl⟩
  rw [hu.filled_eq, start_eq]
  refine ⟨rfl, words, ?_, rfl, ?_, (agreesBut_fillIn .user).withPc _, ?_⟩
  · rw [hlen, hregisters, count_eq]
  -- the word read for a register is what every mode with its cell sees
  · intro k register word mode hr hw hs
    rw [← hregisters] at hr
    have hne : register ≠ .pc := (mem_generalRegisters.1 (List.mem_of_getElem? hr)).2
    refine (Cpu.readIn_withPc _ _ mode hne).trans ?_
    exact Cpu.readIn_fillIn pc_notMem_generalRegisters nodup_generalRegisters hr hw hs
  · exact congrArg (· + _) (c.pc_fillIn .user words pc_notMem_generalRegisters)

end Opcodes

/-! ### A store and a later load -/

section Pair

variable {σ : Type} {bus : Bus σ} {block : Word → Prop} {holds : σ → WordMap → Prop} {d : Cpu}
  {t : σ} {now : WordMap} {loading : Opcode} {load : BlockTransfer}

open BlockTransfer

/-- A load of registers of User mode from a block that holds what User mode has seen of them. -/
theorem succeeds_userLoad (hk : bus.KeepsWords block holds) (hh : holds t now)
    (hb : loading.block? = some load) (hc : loading.holds d.cpsr.flags = true) (hu : load.OfUser)
    (hload : load.load = true)
    (hnow : ∀ k < load.count,
      now (load.address d k) = (load.registers.map (userWord c))[k]?) :
    Succeeds bus d t loading.execute fun _ e _ => ∀ register, load.lists register = true →
      e.readIn .user register = c.readIn .user register := by
  have hpc := hu.lists_pc hload
  -- one word for each register
  have hlen : (load.registers.map (userWord c)).length = load.count := by
    rw [List.length_map, count_eq]
  apply (succeeds_blockLoad hk hh hb hc hu.refusal?_eq_none hload hpc hlen hnow).mono
  rintro _ _ _ rfl register hlists
  have hne : register ≠ .pc := by
    rintro rfl
    exact absurd hlists (ne_true_of_eq_false hpc)
  -- the word of the register is at its place in the list
  obtain ⟨k, hregister⟩ :=
    List.mem_iff_getElem?.1 (mem_generalRegisters.2 ⟨hlists, hne⟩)
  have hword : (load.registers.map (userWord c))[k]? = some (c.readIn .user register) := by
    rw [← generalRegisters_eq hpc, List.getElem?_map, hregister]
    exact congrArg some (if_neg hne)
  rw [hu.filled_eq]
  refine (Cpu.readIn_withPc _ _ .user hne).trans ?_
  exact Cpu.readIn_fillIn pc_notMem_generalRegisters nodup_generalRegisters hregister hword
    (Cpu.sameCell_self .user register)

end Pair

/-! ### The main result -/

open BlockTransfer

/-- **User-bank block transfers save and restore the User context from any mode.**  A store marked
`^`, without write-back, that the bus serves writes what User mode sees of the listed registers, and
changes no register of any mode but the program counter.  A load marked `^`, without write-back and
without the program counter, that the bus serves gives the listed registers of User mode the words
it reads and changes no other register of any mode and no status.  So when a bus keeps the words
that such a store has written in one mode, such a load of the same list from the same block, in
whatever mode and after whatever has been done to the registers, gives back what User mode saw at
the store. -/
theorem userBlock_saves_and_restores {σ : Type} (bus : Bus σ) (state : σ) (c : Cpu)
    (opcode : Opcode) (transfer : BlockTransfer) (hb : opcode.block? = some transfer)
    (hc : opcode.holds c.cpsr.flags = true) (hu : transfer.OfUser) :
    let run := opcode.execute.runOn bus c state
    (transfer.load = false → (∀ event ∈ run.events, event.Served) →
      run.value.1 = .ok () ∧
        transfer.StoresUserContext opcode.instructionSet c run.events run.value.2) ∧
    (transfer.load = true → (∀ event ∈ run.events, event.Served) →
      run.value.1 = .ok () ∧ ∃ words,
        transfer.LoadsUserContext opcode.instructionSet c words run.events run.value.2) ∧
    (c.instructionSet = .arm → userWord c .pc = c.fetchAddress + 12) ∧
    ∀ (block : Word → Prop) (holds : σ → WordMap → Prop) (contents : WordMap),
      bus.KeepsWords block holds → holds state contents → transfer.load = false →
      (∀ k < transfer.count, block (transfer.address c k)) →
      run.value.1 = .ok () ∧ ∃ kept, holds run.state kept ∧
        (∀ k < transfer.count,
          kept (transfer.address c k) = (transfer.registers.map (userWord c))[k]?) ∧
        ∀ (loading : Opcode) (load : BlockTransfer) (d : Cpu) (t : σ) (now : WordMap),
          loading.block? = some load → loading.holds d.cpsr.flags = true → load.OfUser →
          load.load = true → load.list = transfer.list →
          (∀ k < transfer.count, load.address d k = transfer.address c k) → holds t now →
          (∀ k < transfer.count,
            now (transfer.address c k) = kept (transfer.address c k)) →
          let loaded := loading.execute.runOn bus d t
          loaded.value.1 = .ok () ∧ ∀ register, transfer.lists register = true →
            loaded.value.2.readIn .user register = c.readIn .user register := by
  intro run
  refine ⟨?_, ?_, Cpu.readLate_pc, ?_⟩
  · intro hload hs
    obtain ⟨_, hr, hstores⟩ := (whenServed_userStore hb hc hu hload).run hs
    exact ⟨hr, hstores⟩
  · intro hload hs
    obtain ⟨_, hr, hloads⟩ := (whenServed_userLoad hb hc hu hload).run hs
    exact ⟨hr, hloads⟩
  · intro block holds contents hk hh hload hblock
    obtain ⟨_, hr, -, hheld⟩ :=
      (succeeds_blockStore hk hh hb hc hu.refusal?_eq_none hload hblock).run
    rw [hu.map_storedValue] at hheld
    refine ⟨hr, _, hheld, fun k hlt => store_address (userWord c) hlt, ?_⟩
    intro loading load d t now hb' hc' hu' hload' hlist haddress ht hnow loaded
    -- the two transfers list the same registers
    have hlists (register : Register) : load.lists register = transfer.lists register :=
      congrArg (·.getLsbD register.index) hlist
    have hregisters : load.registers = transfer.registers :=
      List.filter_congr fun register _ => hlists register
    have hcount : load.count = transfer.count := congrArg (·.cpop.toNat) hlist
    have hwords : ∀ k < load.count,
        now (load.address d k) = (load.registers.map (userWord c))[k]? := by
      intro k hlt
      rw [hcount] at hlt
      rw [haddress k hlt, hnow k hlt, hregisters]
      exact store_address (userWord c) hlt
    obtain ⟨_, hr', hread⟩ := (succeeds_userLoad hk ht hb' hc' hu' hload' hwords).run
    refine ⟨hr', ?_⟩
    intro register hlisted
    rw [← hlists] at hlisted
    exact hread register hlisted

/-- The handler of a fast interrupt, with values in R8 and in the stack pointer of User mode. -/
def interruptedUser : Cpu :=
  (fastHandler.writeIn .user (.ofField 8#4) 0x88).writeIn .user .sp 0x1000

/-- The store of R8 and the stack pointer of User mode upwards from R0. -/
def userTransfer : BlockTransfer where
  load := false
  base := .ofField 0#4
  list := 0x2100
  up := true
  pre := false
  writeBack := false
  mark := true

/-- R8 and the stack pointer of User mode are stored in the handler of a fast interrupt and are
loaded in supervisor mode, on a processor on which they are zero. -/
theorem userBlock_saves_and_restores_fastHandler :
    let memory : Memory := { regions := [⟨0, 0x10, false⟩] }
    let saved := (Opcode.arm 0xE8C02100).execute.runOn Memory.bus interruptedUser memory
    let loaded := (Opcode.arm 0xE8D02100).execute.runOn Memory.bus .reset saved.state
    saved.value.1 = .ok () ∧ loaded.value.1 = .ok () ∧
      loaded.value.2.readIn .user (.high 0) = 0x88 ∧ loaded.value.2.readIn .user .sp = 0x1000 := by
  intro memory saved loaded
  -- the two words of the block, one for each listed register
  have hregions : ∀ address, address = 0 ∨ address = 4 → Width.word.align address = address ∧
      ∃ region, memory.regions.find? (·.contains address .word) = some region ∧
        region.readOnly = false := by
    rintro address (rfl | rfl)
    · exact ⟨rfl, ⟨0, 0x10, false⟩, by decide, rfl⟩
    · exact ⟨rfl, ⟨0, 0x10, false⟩, by decide, rfl⟩
  have hblock : ∀ k < userTransfer.count, userTransfer.address interruptedUser k = 0 ∨
      userTransfer.address interruptedUser k = 4 := by
    decide
  -- R8 and the stack pointer of User mode, saved while the fast handler sees its own
  have hmain := userBlock_saves_and_restores Memory.bus memory interruptedUser (.arm 0xE8C02100)
    userTransfer (by decide) (by decide) ⟨rfl, rfl, by decide, rfl⟩
  obtain ⟨hsaved, kept, hkept, -, hrestores⟩ := hmain.2.2.2 _ _ (fun _ => none)
    (Memory.keepsWords hregions) ⟨rfl, fun _ _ hn => nomatch hn⟩ rfl hblock
  obtain ⟨hr, hread⟩ := hrestores (.arm 0xE8D02100) { userTransfer with load := true } .reset
    saved.state kept (by decide) (by decide) ⟨rfl, rfl, by decide, by decide⟩ rfl rfl (by decide)
    hkept fun _ _ => rfl
  exact ⟨hsaved, hr, hread (.high 0) (by decide), hread .sp (by decide)⟩

end Armv4t

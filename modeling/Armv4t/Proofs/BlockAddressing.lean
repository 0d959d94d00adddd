import Armv4t.Proofs.BlockExecution

/-!
# Block addressing

A block lies by its base in one of four ways, and `AddressingMode` is the table of them: where the
first of `n` words is, and what is written back to the base.  The main result,
`blockTransfer_follows_table`, says that a block transfer follows the table: it makes one access for
each listed register, upwards from the first word, and changes what it is to change and nothing
else.  `BlockTransfer.LoadsByTable` and `BlockTransfer.StoresByTable` spell this out for loads and
for stores; addresses wrap around and need not be aligned.
-/

namespace Armv4t

open StepM

/-! ### The table -/

/-- The four ways in which a block lies by its base. -/
inductive AddressingMode where
  | incrementAfter
  | incrementBefore
  | decrementAfter
  | decrementBefore
deriving DecidableEq, Repr

namespace AddressingMode

/-- The address of the first word of a block of `n` words. -/
def start (base : Word) (n : Nat) : AddressingMode → Word
  | incrementAfter => base
  | incrementBefore => base + 4
  | decrementAfter => base - 4 * BitVec.ofNat 32 n + 4
  | decrementBefore => base - 4 * BitVec.ofNat 32 n

/-- The base after write-back. -/
def final (base : Word) (n : Nat) : AddressingMode → Word
  | incrementAfter | incrementBefore => base + 4 * BitVec.ofNat 32 n
  | decrementAfter | decrementBefore => base - 4 * BitVec.ofNat 32 n

end AddressingMode

namespace BlockTransfer

variable {c : Cpu} {transfer : BlockTransfer}

/-- How the block of the transfer lies by its base. -/
def addressing (transfer : BlockTransfer) : AddressingMode :=
  match transfer.up, transfer.pre with
  | true, false => .incrementAfter
  | true, true => .incrementBefore
  | false, false => .decrementAfter
  | false, true => .decrementBefore

/-- How many registers are listed. -/
def count (transfer : BlockTransfer) : Nat :=
  transfer.list.cpop.toNat

theorem count_eq (transfer : BlockTransfer) : transfer.count = transfer.registers.length :=
  transfer.length_registers.symm

theorem count_le (transfer : BlockTransfer) : transfer.count ≤ 16 :=
  transfer.list.toNat_cpop_le

theorem size_eq (transfer : BlockTransfer) :
    transfer.size = 4 * BitVec.ofNat 32 transfer.count := by
  unfold size
  rw [count_eq]

theorem start_eq (transfer : BlockTransfer) (base : Word) :
    transfer.start base = transfer.addressing.start base transfer.count := by
  unfold start addressing
  rw [size_eq]
  cases transfer.up <;> cases transfer.pre <;> rfl

theorem final_eq (transfer : BlockTransfer) (base : Word) :
    transfer.final base = transfer.addressing.final base transfer.count := by
  unfold final addressing
  rw [size_eq]
  cases transfer.up <;> cases transfer.pre <;> rfl

/-- The address of word number `k` of the block. -/
def address (transfer : BlockTransfer) (c : Cpu) (k : Nat) : Word :=
  slot (transfer.addressing.start (c.read transfer.base) transfer.count) k

theorem address_eq (transfer : BlockTransfer) (c : Cpu) (k : Nat) :
    transfer.address c k = slot (transfer.start (c.read transfer.base)) k := by
  unfold address
  rw [start_eq]

/-! ### Loads -/

/-- What a block load has done by the table: the words of the block are read upwards from its start,
each listed register holds its word, an unlisted base is written back, and the program counter moves
on or, when it is listed, is refilled from the last word.  Nothing else has changed. -/
structure LoadsByTable (transfer : BlockTransfer) (set : InstructionSet) (c : Cpu)
    (words : List Word) (events : List BusEvent) (d : Cpu) : Prop where
  length : words.length = transfer.count
  register {k : Nat} {register : Register} {word : Word}
    (hr : transfer.registers[k]? = some register) (hw : words[k]? = some word)
    (hpc : register ≠ .pc) : d.read register = word
  base (hw : transfer.writeBack = true) (hl : transfer.lists transfer.base = false) :
    d.read transfer.base = transfer.addressing.final (c.read transfer.base) transfer.count
  others : c.AgreesBut c.mode (fun register => transfer.lists register = true ∨
    transfer.writeBack = true ∧ register = transfer.base) d
  next (h : transfer.lists .pc = false) :
    events = .charge 1 ::
      (wordReads (transfer.addressing.start (c.read transfer.base) transfer.count) words ++
        [.charge 1]) ∧ d.pc = c.pc + set.size
  refill (h : transfer.lists .pc = true) : ∃ target, words.getLast? = some target ∧
    events = .charge 1 ::
      (wordReads (transfer.addressing.start (c.read transfer.base) transfer.count) words ++
        .charge 1 :: c.branchEvents target) ∧ d.pc = (c.branched target).pc

theorem isUserBank_of_mark (h : transfer.mark = false) : transfer.isUserBank = false := by
  unfold isUserBank
  rw [h, Bool.false_and]

theorem bankMode_of_mark (h : transfer.mark = false) (mode : Mode) :
    transfer.bankMode mode = mode := by
  unfold bankMode
  rw [isUserBank_of_mark h, if_neg Bool.false_ne_true]

/-- A listed register other than the program counter has the same place among the general ones. -/
theorem getElem?_generalRegisters {k : Nat} {register : Register}
    (hr : transfer.registers[k]? = some register) (hpc : register ≠ .pc) :
    transfer.generalRegisters[k]? = some register := by
  rw [registers_eq] at hr
  -- behind the general registers there is nothing but the program counter
  rcases Nat.lt_or_ge k transfer.generalRegisters.length with hlt | hge
  · rwa [List.getElem?_append_left hlt] at hr
  · rw [List.getElem?_append_right hge] at hr
    have hmem := List.mem_of_getElem? hr
    split_ifs at hmem
    · exact absurd (List.mem_singleton.1 hmem) hpc
    · nomatch hmem

section Filled

variable {words : List Word}

/-- A base that is written back and not listed is written after the listed registers. -/
theorem filled_of_writeBack (hw : transfer.writeBack = true)
    (hl : transfer.lists transfer.base = false) :
    transfer.filled words c =
      (c.fillIn (transfer.bankMode c.mode) transfer.generalRegisters words).write transfer.base
        (transfer.final (c.read transfer.base)) := by
  have hback : transfer.writeBack ∧ !transfer.lists transfer.base := by
    rw [hw, hl]
    exact ⟨rfl, rfl⟩
  unfold filled writeBackLoaded
  rw [if_pos hback]

variable (hpc : transfer.writeBack = true → transfer.base ≠ .pc)

include hpc

theorem base_filled (hw : transfer.writeBack = true)
    (hl : transfer.lists transfer.base = false) :
    (transfer.filled words c).read transfer.base =
      transfer.addressing.final (c.read transfer.base) transfer.count := by
  rw [filled_of_writeBack hw hl, Cpu.read_write _ _ (hpc hw), if_pos rfl, final_eq]

variable (hm : transfer.mark = false)

include hm

theorem agreesBut_filled :
    c.AgreesBut c.mode (fun register => transfer.lists register = true ∨
      transfer.writeBack = true ∧ register = transfer.base) (transfer.filled words c) := by
  have hfill : c.AgreesBut c.mode (fun register => transfer.lists register = true ∨
      transfer.writeBack = true ∧ register = transfer.base)
        (c.fillIn c.mode transfer.generalRegisters words) :=
    (agreesBut_fillIn c.mode).mono fun register => .inl
  unfold filled writeBackLoaded
  rw [bankMode_of_mark hm]
  split_ifs with h
  · -- the registers are filled in the same mode, so the base is written in the mode of the start
    rw [Cpu.write_eq_writeIn, hfill.mode_eq]
    exact hfill.writeIn (.inr ⟨h.1, rfl⟩) (hpc h.1) _
  · exact hfill

theorem read_filled {k : Nat} {register : Register} {word : Word}
    (hr : transfer.generalRegisters[k]? = some register) (hw : words[k]? = some word) :
    (transfer.filled words c).read register = word := by
  have hword : (c.fillIn c.mode transfer.generalRegisters words).read register = word :=
    c.read_fillIn pc_notMem_generalRegisters nodup_generalRegisters hr hw
  unfold filled writeBackLoaded
  rw [bankMode_of_mark hm]
  split_ifs with h
  · -- the base is written back only if it is not listed
    have hlists := (mem_generalRegisters.1 (List.mem_of_getElem? hr)).1
    have hne : register ≠ transfer.base := by
      rintro rfl
      rw [hlists] at h
      nomatch h.2
    rw [Cpu.read_write _ _ (hpc h.1), if_neg hne, hword]
  · exact hword

end Filled

/-- Without the program counter, the words of a block are those of the general registers. -/
theorem generalRegisters_eq (h : transfer.lists .pc = false) :
    transfer.generalRegisters = transfer.registers := by
  rw [registers_eq, h, if_neg Bool.false_ne_true, List.append_nil]

/-- A processor that a load has filled, wherever it goes on, has loaded by the table if its accesses
and its program counter are those of the table. -/
theorem loadsByTable_filled (hpc : transfer.writeBack = true → transfer.base ≠ .pc)
    (hm : transfer.mark = false) {set : InstructionSet} {words rest : List Word}
    {events : List BusEvent} (hlen : words.length = transfer.generalRegisters.length)
    (hall : (words ++ rest).length = transfer.registers.length) (pc : Word)
    (next : transfer.lists .pc = false → events = .charge 1 ::
      (wordReads (transfer.start (c.read transfer.base)) (words ++ rest) ++ [.charge 1]) ∧
        pc = c.pc + set.size)
    (refill : transfer.lists .pc = true → ∃ target, (words ++ rest).getLast? = some target ∧
      events = .charge 1 ::
        (wordReads (transfer.start (c.read transfer.base)) (words ++ rest) ++
          .charge 1 :: c.branchEvents target) ∧ pc = (c.branched target).pc) :
    transfer.LoadsByTable set c (words ++ rest) events
      { transfer.filled words c with pc := pc } where
  length := by rw [hall, count_eq]
  register {k register word} hr hw hne := by
    have hgeneral := getElem?_generalRegisters hr hne
    -- a general register comes before the program counter, so that its word is among `words`
    have hlt : k < words.length := by
      rw [hlen]
      exact (List.getElem?_eq_some_iff.1 hgeneral).1
    rw [List.getElem?_append_left hlt] at hw
    rw [Cpu.read_withPc _ _ hne]
    exact read_filled hpc hm hgeneral hw
  base hw hl := by
    rw [Cpu.read_withPc _ _ (hpc hw)]
    exact base_filled hpc hw hl
  others := (agreesBut_filled hpc hm).withPc pc
  next := by
    rw [← start_eq]
    exact next
  refill := by
    rw [← start_eq]
    exact refill

/-! ### Stores -/

/-- The word that the table says is stored for a listed register, `k` being its place in the list: a
base that is written back is stored as it was if it is the lowest of the list and as it will be
otherwise, and the program counter is stored one word further ahead. -/
def tableValue (transfer : BlockTransfer) (c : Cpu) (k : Nat) (register : Register) : Word :=
  if transfer.writeBack ∧ register = transfer.base then
    if k = 0 then c.read register
    else transfer.addressing.final (c.read register) transfer.count
  else c.readLate register

/-- What a block store has done by the table: the words of the listed registers are written upwards
from the start of the block, and nothing has changed but the base, if it is written back, and the
program counter, which has moved on. -/
structure StoresByTable (transfer : BlockTransfer) (set : InstructionSet) (c : Cpu)
    (events : List BusEvent) (d : Cpu) : Prop where
  length : transfer.registers.length = transfer.count
  events : events = .charge 1 ::
    wordWrites (transfer.addressing.start (c.read transfer.base) transfer.count)
      (transfer.registers.mapIdx (transfer.tableValue c))
  base (hw : transfer.writeBack = true) :
    d.read transfer.base = transfer.addressing.final (c.read transfer.base) transfer.count
  others : c.AgreesBut c.mode
    (fun register => transfer.writeBack = true ∧ register = transfer.base) d
  pc : d.pc = c.pc + set.size

theorem nodup_registers : transfer.registers.Nodup := by
  have hall : Register.all.Nodup := by decide
  exact hall.filter _

/-- The value stored for a listed register is that of the table. -/
theorem storedValue_eq_tableValue (hm : transfer.mark = false) {k : Nat} {register : Register}
    (hr : transfer.registers[k]? = some register) :
    transfer.storedValue c register = transfer.tableValue c k register := by
  have huser : ¬(register ≠ .pc ∧ transfer.isUserBank = true) := by
    rw [isUserBank_of_mark hm]
    exact fun both => nomatch both.2
  -- no register is listed twice, so the lowest is the one whose place is the first
  have hhead : transfer.registers.head? = some register ↔ k = 0 := by
    rw [List.head?_eq_getElem?]
    constructor
    · intro hzero
      have hlt : k < transfer.registers.length := (List.getElem?_eq_some_iff.1 hr).1
      exact (List.getElem?_inj hlt nodup_registers).1 (hr.trans hzero.symm)
    · intro hk
      rwa [hk] at hr
  unfold storedValue tableValue
  dsimp only
  rw [if_neg huser]
  by_cases hbase : transfer.writeBack = true ∧ register = transfer.base
  · rw [if_pos hbase, if_pos hbase, final_eq, hbase.2]
    rw [hbase.2] at hhead
    exact if_congr hhead rfl rfl
  · rw [if_neg hbase, if_neg hbase]

theorem map_storedValue (hm : transfer.mark = false) :
    transfer.registers.map (transfer.storedValue c) =
      transfer.registers.mapIdx (transfer.tableValue c) := by
  apply List.ext_getElem?
  intro k
  rw [List.getElem?_map, List.getElem?_mapIdx]
  cases hr : transfer.registers[k]? with
  | none => rfl
  | some register => exact congrArg some (storedValue_eq_tableValue hm hr)

theorem storesByTable_writtenBack (hpc : transfer.writeBack = true → transfer.base ≠ .pc)
    (hm : transfer.mark = false) (set : InstructionSet) :
    transfer.StoresByTable set c
      (.charge 1 :: wordWrites (transfer.start (c.read transfer.base))
        (transfer.registers.map (transfer.storedValue c)))
      ((transfer.writtenBack c).advanced set) where
  length := transfer.count_eq.symm
  events := by rw [map_storedValue hm, start_eq]
  base hw := by
    -- the base is written, and the program counter only moves on
    have hwritten : transfer.writtenBack c =
        c.write transfer.base (transfer.final (c.read transfer.base)) := if_pos hw
    unfold Cpu.advanced
    rw [Cpu.read_withPc _ _ (hpc hw), hwritten, Cpu.read_write _ _ (hpc hw), if_pos rfl, final_eq]
  others := (agreesBut_writtenBack hpc).withPc _
  pc := by
    unfold Cpu.advanced
    rw [pc_writtenBack hpc]

end BlockTransfer

/-- In ARM state the program counter is stored as the address of the store and three words. -/
theorem Cpu.readLate_pc {c : Cpu} (h : c.instructionSet = .arm) :
    c.readLate .pc = c.fetchAddress + 12 := by
  unfold fetchAddress
  rw [h]
  show c.pc + 4 = c.pc - 8 + 12
  bv_omega

/-! ### Block transfers -/

section Opcodes

variable {c : Cpu} {transfer : BlockTransfer} {opcode : Opcode}
  (hb : opcode.block? = some transfer) (hc : opcode.holds c.cpsr.flags = true)
  (hl : transfer.list ≠ 0) (hpc : transfer.writeBack = true → transfer.base ≠ .pc)
  (hm : transfer.mark = false)

include hb hc hl hpc hm

open BlockTransfer

/-- A block load follows the table when the bus serves it. -/
theorem whenServed_blockLoad (hload : transfer.load = true) :
    WhenServed c opcode.execute fun events _ d =>
      ∃ words, transfer.LoadsByTable opcode.instructionSet c words events d := by
  have hr := refusal?_eq_none hpc hl
  cases hlists : transfer.lists .pc with
  -- without the program counter the transfer ends behind the last register
  | false =>
    have hnot : ¬transfer.lists .pc = true := ne_true_of_eq_false hlists
    apply Opcode.whenServed_execute hb hc hr .next
    apply whenServed_get_bind
    rw [if_pos hload]
    apply (whenServed_executeLoad hlists).mono
    rintro _ _ _ ⟨words, hlen, rfl, rfl, rfl⟩
    refine ⟨rfl, words ++ [], ?_⟩
    apply loadsByTable_filled hpc hm hlen
    · rw [List.append_nil, hlen, generalRegisters_eq hlists]
    · intro _
      rw [List.append_nil, pc_filled hpc]
      exact ⟨rfl, rfl⟩
    · intro h
      exact absurd h hnot
  -- with it the last word read is where execution goes on
  | true =>
    apply Opcode.whenServed_execute hb hc hr .jump
    apply whenServed_get_bind
    rw [if_pos hload]
    apply (whenServed_executeLoad_pc hlists hm).mono
    rintro _ _ _ ⟨words, target, hlen, rfl, rfl, rfl⟩
    refine ⟨rfl, words ++ [target], ?_⟩
    apply loadsByTable_filled hpc hm hlen
    · rw [List.length_append, List.length_singleton, hlen, length_registers_of_lists hlists]
    · intro hnot
      exact absurd hlists (ne_true_of_eq_false hnot)
    · intro _
      refine ⟨target, List.getLast?_concat, rfl, ?_⟩
      unfold Cpu.branched
      rw [instructionSet_filled]

/-- A block store follows the table when the bus serves it. -/
theorem whenServed_blockStore (hload : transfer.load = false) :
    WhenServed c opcode.execute fun events _ d =>
      transfer.StoresByTable opcode.instructionSet c events d := by
  apply Opcode.whenServed_execute hb hc (refusal?_eq_none hpc hl) .next
  apply whenServed_get_bind
  rw [if_neg (ne_true_of_eq_false hload)]
  apply whenServed_executeStore.mono
  rintro _ _ _ ⟨rfl, rfl, rfl⟩
  exact ⟨rfl, storesByTable_writtenBack hpc hm _⟩

end Opcodes

/-! ### Blocks on a bus that keeps them -/

section Kept

variable {σ : Type} {bus : Bus σ} {block : Word → Prop} {holds : σ → WordMap → Prop} {c : Cpu}
  {state : σ} {contents : WordMap} {transfer : BlockTransfer} {opcode : Opcode} {words : List Word}

open BlockTransfer

/-- A block that has been stored holds the words of the listed registers. -/
theorem store_address (value : Register → Word) {k : Nat} (hk : k < transfer.count) :
    contents.store (transfer.start (c.read transfer.base)) (transfer.registers.map value)
      (transfer.address c k) = (transfer.registers.map value)[k]? := by
  have hlen : (transfer.registers.map value).length = transfer.count := by
    rw [List.length_map, count_eq]
  have hle := transfer.count_le
  rw [address_eq]
  exact WordMap.store_slot (by omega) (by omega)

variable (hk : bus.KeepsWords block holds) (hh : holds state contents)
  (hb : opcode.block? = some transfer) (hc : opcode.holds c.cpsr.flags = true)
  (hr : transfer.refusal? = none)

include hk hh hb hc hr

/-- An opcode that stores registers to a block that is kept leaves their words there. -/
theorem succeeds_blockStore (hload : transfer.load = false)
    (hblock : ∀ k < transfer.count, block (transfer.address c k)) :
    Succeeds bus c state opcode.execute fun _ d t =>
      d = (transfer.writtenBack c).advanced opcode.instructionSet ∧
        holds t (contents.store (transfer.start (c.read transfer.base))
          (transfer.registers.map (transfer.storedValue c))) := by
  -- the words of the registers are those of the block, slot by slot
  have hall : ∀ k < transfer.registers.length,
      block (slot (transfer.start (c.read transfer.base)) k) := by
    intro k hlt
    rw [← count_eq] at hlt
    rw [← address_eq]
    exact hblock k hlt
  apply Opcode.succeeds_execute hb hc hr .next
  apply succeeds_get_bind
  rw [if_neg (ne_true_of_eq_false hload)]
  apply (succeeds_executeStore hk (hk.charge hh 1) hall).mono
  rintro _ _ t ⟨⟨rfl, rfl⟩, ht⟩
  exact ⟨rfl, rfl, ht⟩

/-- An opcode that loads general registers from a block finds the words that the block holds. -/
theorem succeeds_blockLoad (hload : transfer.load = true) (hpc : transfer.lists .pc = false)
    (hlen : words.length = transfer.count)
    (hw : ∀ k < transfer.count, contents (transfer.address c k) = words[k]?) :
    Succeeds bus c state opcode.execute fun _ d _ =>
      d = (transfer.filled words c).advanced opcode.instructionSet := by
  have hgeneral : words.length = transfer.generalRegisters.length := by
    rw [hlen, generalRegisters_eq hpc, count_eq]
  -- each word of the block lies where the load looks for it
  have hwords : ∀ k < words.length,
      contents (slot (transfer.start (c.read transfer.base)) k) = words[k]? := by
    intro k hlt
    rw [← address_eq]
    exact hw k (by omega)
  apply Opcode.succeeds_execute hb hc hr .next
  apply succeeds_get_bind
  rw [if_pos hload]
  apply (succeeds_executeLoad hk (hk.charge hh 1) hpc hgeneral hwords).mono
  rintro _ _ _ ⟨rfl, rfl⟩
  exact ⟨rfl, rfl⟩

/-- One that loads the program counter as well branches to the last of the words. -/
theorem succeeds_blockLoad_pc (hload : transfer.load = true) (hpc : transfer.lists .pc = true)
    (hm : transfer.mark = false) {target : Word}
    (hlen : words.length = transfer.generalRegisters.length)
    (hw : ∀ k < transfer.count, contents (transfer.address c k) = (words ++ [target])[k]?) :
    Succeeds bus c state opcode.execute fun _ d _ =>
      d = (transfer.filled words c).branched target := by
  have hcount : transfer.count = words.length + 1 := by
    rw [hlen, ← length_registers_of_lists hpc, count_eq]
  have hwords : ∀ k < words.length,
      contents (slot (transfer.start (c.read transfer.base)) k) = words[k]? := by
    intro k hlt
    rw [← address_eq, hw k (by omega)]
    exact List.getElem?_append_left hlt
  -- the program counter is loaded from behind the others
  have hlast : contents (slot (transfer.start (c.read transfer.base)) words.length) =
      some target := by
    rw [← address_eq, hw _ (by omega)]
    exact List.getElem?_concat_length
  apply Opcode.succeeds_execute hb hc hr .jump
  apply succeeds_get_bind
  rw [if_pos hload]
  apply (succeeds_executeLoad_pc hk (hk.charge hh 1) hpc hm hlen hwords hlast).mono
  rintro _ _ _ ⟨rfl, rfl⟩
  exact ⟨rfl, rfl⟩

end Kept

/-! ### The main result -/

/-- **Block transfers follow the addressing table.**  An opcode of either instruction set that says
a block transfer of a register list, without the mark `^`, succeeds on every bus that fails none of
its accesses.  It makes as many accesses as registers are listed, upwards from the start that the
table gives, each address aligned after it has been computed.  A load gives each listed register its
word, the program counter last and by a refill in the current state; a store writes what the
registers held, a base that is written back as it was only if it is the lowest of the list.  The
base is written back as the table says, unless it was loaded, and nothing else changes. -/
theorem blockTransfer_follows_table (opcode : Opcode) (transfer : BlockTransfer) (c : Cpu)
    {σ : Type} (bus : Bus σ) (state : σ) (hb : opcode.block? = some transfer)
    (hc : opcode.holds c.cpsr.flags = true) (hl : transfer.list ≠ 0)
    (hpc : transfer.writeBack = true → transfer.base ≠ .pc) (hm : transfer.mark = false)
    (hs : ∀ event ∈ (opcode.execute.runOn bus c state).events, event.Served) :
    let run := opcode.execute.runOn bus c state
    run.value.1 = .ok () ∧
      (transfer.load = true → ∃ words,
        transfer.LoadsByTable opcode.instructionSet c words run.events run.value.2) ∧
      (transfer.load = false →
        transfer.StoresByTable opcode.instructionSet c run.events run.value.2) ∧
      (c.instructionSet = .arm → c.readLate .pc = c.fetchAddress + 12) := by
  intro run
  -- a stored program counter counts three words ahead
  have haddress : c.instructionSet = .arm → c.readLate .pc = c.fetchAddress + 12 :=
    Cpu.readLate_pc
  cases hload : transfer.load with
  | true =>
    obtain ⟨_, hr, hloads⟩ := (whenServed_blockLoad hb hc hl hpc hm hload).run hs
    exact ⟨hr, fun _ => hloads, fun h => (nomatch h), haddress⟩
  | false =>
    obtain ⟨_, hr, hstores⟩ := (whenServed_blockStore hb hc hl hpc hm hload).run hs
    exact ⟨hr, fun h => (nomatch h), fun _ => hstores, haddress⟩

/-- A bus that takes every write and answers every read with low bits of the address. -/
def echoBus : Bus Unit where
  answer
    | .read width address, _ => (.ok (address.setWidth width.bits), ())
    | .write .., _ => (.ok (), ())
    | .charge _, _ => ((), ())
    | .branch .., _ => ((), ())

theorem serves_echoBus : echoBus.Serves := by
  intro request state
  cases request with
  | read width address => exact ⟨_, rfl⟩
  | write width address value => rfl
  | charge cycles | branch target set => trivial

/-- A processor whose R1 points into the second halfword of the address space. -/
def lowPointer : Cpu :=
  fastHandler.write (.ofField 1#4) 2

/-- A descending store of R0, R1 and the program counter from the unaligned R1, which is written
back, wraps around the address space. -/
theorem blockTransfer_follows_table_wrapping :
    let run := (Opcode.arm 0xE8218003).execute.runOn echoBus lowPointer ()
    run.value.1 = .ok () ∧ run.value.2.read (.low 1) = 0xFFFFFFF6 ∧
      run.events = [.charge 1, .write .word 0xFFFFFFF8 0 (.ok ()),
        .write .word 0xFFFFFFFC 0xFFFFFFF6 (.ok ()),
        .write .word 0 (lowPointer.fetchAddress + 12) (.ok ())] := by
  intro run
  have hserved := serves_echoBus.served ((Opcode.arm 0xE8218003).execute.run.run lowPointer) ()
  have htable := blockTransfer_follows_table (.arm 0xE8218003)
    { load := false, base := .low 1, list := 0x8003, up := false, pre := false, writeBack := true,
      mark := false } lowPointer echoBus () (by decide) (by decide) (by decide) (by decide) rfl
    hserved
  -- the base is not the lowest register, and so its final value is stored
  have hstores := htable.2.2.1 rfl
  exact ⟨htable.1, hstores.base rfl, hstores.events⟩

end Armv4t

import Armv4t.Proofs.ArmForm
import Armv4t.Proofs.BlockExecution
import Armv4t.Proofs.Memory

/-!
# Loads, stores and swaps see one memory

Over a bus that keeps a memory of bytes, every opcode that loads or stores one register succeeds
(`Opcode.succeeds_load`, `Opcode.succeeds_store`), and so does a swap, whose memory side is a load
and then a store (`Swap.exchange_eq`).  What they deliver and what they leave is said byte by byte,
for both instruction sets and for every address, in `loads_stores_swaps_share_memory`.
-/

namespace Armv4t

open StepM

variable {σ : Type} {bus : Bus σ} {holds : σ → ByteMap → Prop} {c : Cpu} {state : σ}
  {bytes : ByteMap}

/-- The width of a swap. -/
def Swap.width (swap : Swap) : Width :=
  if swap.byte then .byte else .word

/-- The memory side of a swap is a load and then a store. -/
theorem Swap.exchange_eq (swap : Swap) (address new : Word) :
    exchange swap.byte address new = do
      let old ← swap.width.format.load address
      swap.width.store address new
      return old := by
  -- the two widths of a swap are those of a load and a store
  unfold width
  cases swap.byte with
  | true =>
    show exchange true address new = do
      let old ← LoadFormat.byte.load address
      Width.byte.store address new
      return old
    simp only [exchange, LoadFormat.load, bind_assoc, pure_bind, if_true]
    rfl
  | false =>
    show exchange false address new = do
      let old ← LoadFormat.word.load address
      Width.word.store address new
      return old
    simp only [exchange, LoadFormat.load, Width.store, BitVec.setWidth_eq, bind_assoc, pure_bind,
      Bool.false_eq_true, if_false]

/-! ### Computations -/

section Computations

variable (hk : bus.KeepsBytes holds) (h : holds state bytes)

include hk h

/-- A load delivers what the memory holds at its address. -/
theorem LoadFormat.succeeds_load (format : LoadFormat) (address : Word) :
    Succeeds bus c state (format.load address) fun value d t =>
      value = bytes.loaded format address ∧ d = c ∧ holds t bytes := by
  -- every load is one read of an aligned address and a function of what is read
  have hread (width : Width) {address : Word} (ha : width.align address = address)
      (f : BitVec width.bits → Word) {value : Word} (hf : f (bytes.read width address) = value) :
      Succeeds bus c state (do return f (← StepM.read width address)) fun loaded d t =>
        loaded = value ∧ d = c ∧ holds t bytes := by
    obtain ⟨hok, hheld⟩ := hk.read h ha
    apply succeeds_bind (succeeds_read hok)
    rintro _ _ _ ⟨rfl, rfl, rfl⟩
    exact succeeds_pure ⟨hf, rfl, hheld⟩
  cases format with
  | byte =>
    apply hread .byte rfl (·.setWidth 32)
    rw [bytes.read_byte]
    rfl
  | halfword =>
    apply hread .halfword (Width.halfword.align_align address)
      fun value => (value.setWidth 32).rotateRight (Width.halfword.rotation address)
    exact (bytes.loaded_format .halfword address).symm
  | word =>
    apply hread .word (Width.word.align_align address)
      fun value => value.rotateRight (Width.word.rotation address)
    rw [← BitVec.setWidth_eq (bytes.read .word _)]
    exact (bytes.loaded_format .word address).symm
  | signedByte =>
    apply hread .byte rfl (·.signExtend 32)
    rw [bytes.read_byte]
    rfl
  | signedHalfword =>
    unfold load ByteMap.loaded
    dsimp only
    split_ifs with hodd
    · apply hread .byte rfl (·.signExtend 32)
      rw [bytes.read_byte]
    · have heven := (Width.align_halfword_eq_self_iff address).2 (Bool.eq_false_iff.2 hodd)
      apply hread .halfword heven (·.signExtend 32)
      rw [bytes.read_halfword]

/-- A store replaces the bytes of the unit around its address. -/
theorem Width.succeeds_store (width : Width) (address value : Word) :
    Succeeds bus c state (width.store address value) fun _ d t =>
      d = c ∧ holds t (bytes.write width address (value.setWidth width.bits)) := by
  obtain ⟨hok, hheld⟩ := hk.write h (width.align_align address) (value.setWidth width.bits)
  rw [bytes.write_align] at hheld
  apply Succeeds.mono (succeeds_write hok)
  rintro _ _ _ ⟨rfl, rfl⟩
  exact ⟨rfl, hheld⟩

theorem Swap.succeeds_exchange (swap : Swap) (address new : Word) :
    Succeeds bus c state (exchange swap.byte address new) fun old d t =>
      old = bytes.loaded swap.width.format address ∧ d = c ∧
        holds t (bytes.write swap.width address (new.setWidth swap.width.bits)) := by
  rw [swap.exchange_eq]
  apply succeeds_bind (LoadFormat.succeeds_load hk h swap.width.format address)
  rintro _ _ t ⟨rfl, rfl, ht⟩
  apply succeeds_bind (Width.succeeds_store hk ht swap.width address new)
  rintro _ _ t ⟨rfl, ht⟩
  exact succeeds_pure ⟨rfl, rfl, ht⟩

end Computations

/-! ### Registers -/

/-- The processor has received a value in a register.  The program counter receives a value by a
branch to it. -/
def Cpu.Received (cpu : Cpu) (register : Register) (value : Word) : Prop :=
  if register = .pc then cpu.fetchAddress = cpu.instructionSet.align value
  else cpu.read register = value

/-- Where execution goes on after a value has been received. -/
def Register.flow (register : Register) : Flow :=
  if register = .pc then .jump else .next

theorem Cpu.Received.proceeded {cpu : Cpu} {register : Register} {value : Word}
    (hr : cpu.Received register value) (set : InstructionSet) :
    (if register.flow = .next then cpu.advanced set else cpu).Received register value := by
  by_cases hp : register = .pc
  · have hflow : register.flow = .jump := if_pos hp
    rw [hflow, if_neg Flow.noConfusion]
    exact hr
  · have hflow : register.flow = .next := if_neg hp
    unfold Received at hr ⊢
    rw [if_neg hp] at hr
    rw [hflow, if_pos rfl, if_neg hp, Cpu.read_advanced _ _ hp]
    exact hr

section Deliver

variable (hk : bus.KeepsBytes holds) (h : holds state bytes)

include hk h

theorem CpuM.succeeds_writeOrBranch (register : Register) (value : Word) :
    Succeeds bus c state (liftM (CpuM.writeOrBranch register value)) fun flow d t =>
      flow = register.flow ∧ d.Received register value ∧ holds t bytes := by
  unfold CpuM.writeOrBranch Register.flow Cpu.Received
  split_ifs with hp
  · apply succeeds_lift
    apply CpuM.yields_branchTo
    exact ⟨rfl, c.fetchAddress_branched value, hk.charge (hk.branch h _ _) 2⟩
  · have hread := c.read_write value hp register
    rw [if_pos rfl] at hread
    exact ⟨_, _, rfl, rfl, hread, h⟩

theorem CpuM.succeeds_branchExchange (value : Word) :
    Succeeds bus c state (liftM (CpuM.branchExchange value)) fun flow d t =>
      flow = Register.pc.flow ∧ d.Received .pc value ∧ holds t bytes := by
  apply succeeds_lift
  apply CpuM.yields_modify_bind
  apply CpuM.yields_branchTo
  exact ⟨rfl, Cpu.fetchAddress_branched _ value, hk.charge (hk.branch h _ _) 2⟩

/-- A loaded value reaches its register, a word in the program counter with an exchange. -/
theorem SingleTransfer.succeeds_receive (data : Register) (format : LoadFormat) (value : Word) :
    Succeeds bus c state
      (if data = .pc ∧ format = .word then CpuM.branchExchange value
        else CpuM.writeOrBranch data value : StepM Flow) fun flow d t =>
      flow = data.flow ∧ d.Received data value ∧ holds t bytes := by
  split_ifs with hword
  · rw [hword.1]
    exact CpuM.succeeds_branchExchange hk h value
  · exact CpuM.succeeds_writeOrBranch hk h data value

end Deliver

namespace SingleTransfer

variable {transfer : SingleTransfer}

/-- A load gives its register what the memory holds at the address. -/
theorem succeeds_executeAt_load (hk : bus.KeepsBytes holds) (h : holds state bytes)
    {format : LoadFormat} (ha : transfer.access = .load format) (base offset : Word) :
    Succeeds bus c state (transfer.executeAt base offset) fun flow d t =>
      flow = transfer.data.flow ∧
        d.Received transfer.data (bytes.loaded format (transfer.address base offset)) ∧
        holds t bytes := by
  unfold executeAt
  rw [ha]
  apply succeeds_bind (LoadFormat.succeeds_load hk h format _)
  rintro _ _ t ⟨rfl, rfl, ht⟩
  apply succeeds_charge_bind
  -- what is received is the same with and without write-back
  have hreceive (d : Cpu) := succeeds_receive (c := d) hk (hk.charge ht 1) transfer.data format
    (bytes.loaded format (transfer.address base offset))
  by_cases hback : transfer.indexing.writesBack ∧ transfer.base ≠ transfer.data
  · rw [if_pos hback]
    exact succeeds_modify_bind (hreceive _)
  · rw [if_neg hback]
    exact hreceive _

/-- A store leaves the value of its register in memory. -/
theorem succeeds_executeAt_store (hk : bus.KeepsBytes holds) (h : holds state bytes)
    {width : Width} (ha : transfer.access = .store width) (base offset : Word) :
    Succeeds bus c state (transfer.executeAt base offset) fun flow _ t =>
      flow = .next ∧ holds t (bytes.write width (transfer.address base offset)
        ((c.readLate transfer.data).setWidth width.bits)) := by
  unfold executeAt
  rw [ha]
  apply succeeds_get_bind
  apply succeeds_bind (Width.succeeds_store hk h width _ _)
  rintro _ _ t ⟨rfl, ht⟩
  -- the bytes are written before the base is
  split_ifs
  · apply succeeds_modify_bind
    exact succeeds_pure ⟨rfl, ht⟩
  · exact succeeds_pure ⟨rfl, ht⟩

end SingleTransfer

/-! ### Opcodes -/

/-- The load or store of one register that an instruction is, if it is one. -/
def ArmInstruction.single? : ArmInstruction → Option SingleTransfer
  | singleTransfer transfer => some transfer
  | _ => none

namespace ThumbInstruction

@[inherit_doc ArmInstruction.single?]
def single? : ThumbInstruction → Option SingleTransfer
  | pcRelativeLoad data offset =>
    some (plainTransfer (.load .word) (.low data) .pc (.immediate (wordOffset offset)))
  | registerOffset access data base offset =>
    some (plainTransfer access (.low data) (.low base) (.register (.low offset) .lsl 0))
  | immediateOffset width load data base offset =>
    some (plainTransfer (immediateAccess width load) (.low data) (.low base)
      (.immediate (scaledOffset width offset)))
  | spRelative load data offset =>
    some (plainTransfer (.ofWord load) (.low data) .sp (.immediate (wordOffset offset)))
  | _ => none

/-- The value of a base register: a Thumb instruction reads the program counter rounded down to a
word boundary. -/
def baseValue (register : Register) (cpu : Cpu) : Word :=
  if register = .pc then wordPc cpu else cpu.read register

end ThumbInstruction

/-- Performs a transfer, given how the value of its base register is read. -/
def SingleTransfer.executeFrom (transfer : SingleTransfer) (value : Register → Cpu → Word) :
    StepM Flow := do
  let cpu ← get
  transfer.executeAt (value transfer.base cpu) (transfer.offset.value cpu)

/-- A Thumb instruction that is a single transfer does what the transfer does. -/
theorem ThumbInstruction.execute_of_single? {instruction : ThumbInstruction}
    {transfer : SingleTransfer} (hs : instruction.single? = some transfer) :
    instruction.refusal? = none ∧ instruction.execute = transfer.executeFrom baseValue := by
  cases instruction with
  | pcRelativeLoad | registerOffset | immediateOffset | spRelative =>
    obtain rfl := Option.some.inj hs
    exact ⟨rfl, rfl⟩
  | _ => nomatch hs

namespace Opcode

/-- The load or store of one register that the opcode says, if it says one. -/
def single? : Opcode → Option SingleTransfer
  | arm word => (ArmInstruction.ofOpcode? word).bind ArmInstruction.single?
  | thumb halfword => (ThumbInstruction.ofOpcode? halfword).bind ThumbInstruction.single?

/-- The value that the opcode finds in a base register. -/
def baseValue : Opcode → Register → Cpu → Word
  | arm _, register, cpu => cpu.read register
  | thumb _, register, cpu => ThumbInstruction.baseValue register cpu

/-- From a processor, the opcode loads or stores a register at an address. -/
def Accesses (opcode : Opcode) (cpu : Cpu) (access : Access) (data : Register) (address : Word) :
    Prop :=
  opcode.holds cpu.cpsr.flags = true ∧ ∃ transfer, opcode.single? = some transfer ∧
    transfer.refusal? = none ∧ transfer.access = access ∧ transfer.data = data ∧
    transfer.address (opcode.baseValue transfer.base cpu) (transfer.offset.value cpu) = address

variable {opcode : Opcode} {transfer : SingleTransfer}

/-- An opcode that says a single transfer with a defined effect takes a cycle and a log record, and
then performs the transfer. -/
theorem run_execute_of_single? (hs : opcode.single? = some transfer)
    (hc : opcode.holds c.cpsr.flags = true) (hr : transfer.refusal? = none) :
    ∃ record, opcode.execute.run.run c = .request (.charge 1) fun _ => .note record
      ((do proceed opcode.instructionSet (← transfer.executeFrom opcode.baseValue) :
        StepM Unit).run.run c) := by
  cases opcode with
  | arm word =>
    obtain ⟨instruction, hi, hs⟩ := Option.bind_eq_some_iff.1 hs
    -- a block transfer or a swap is no single transfer
    cases instruction with
    | singleTransfer =>
      obtain rfl := Option.some.inj hs
      have htree := run_executeArm hc hi
      have hrefusal : (ArmInstruction.singleTransfer _).refusal? = none := hr
      rw [hrefusal] at htree
      exact ⟨_, htree⟩
    | _ => nomatch hs
  | thumb halfword =>
    obtain ⟨instruction, hi, hs⟩ := Option.bind_eq_some_iff.1 hs
    obtain ⟨hrefusal, hexecute⟩ := ThumbInstruction.execute_of_single? hs
    have htree := run_executeThumb (c := c) hi
    rw [hrefusal, hexecute] at htree
    exact ⟨_, htree⟩

theorem succeeds_load (hk : bus.KeepsBytes holds) (h : holds state bytes) {format : LoadFormat}
    {data : Register} {address : Word} (ha : opcode.Accesses c (.load format) data address) :
    Succeeds bus c state opcode.execute fun _ d t =>
      d.Received data (bytes.loaded format address) ∧ holds t bytes := by
  obtain ⟨hc, transfer, hs, hr, haccess, rfl, rfl⟩ := ha
  obtain ⟨record, htree⟩ := run_execute_of_single? hs hc hr
  apply succeeds_of_run_eq htree
  apply succeeds_proceed opcode.instructionSet transfer.data.flow
  apply succeeds_get_bind
  apply Succeeds.mono (SingleTransfer.succeeds_executeAt_load hk (hk.charge h 1) haccess _ _)
  rintro _ d t ⟨rfl, hreceived, ht⟩
  exact ⟨rfl, hreceived.proceeded opcode.instructionSet, ht⟩

theorem succeeds_store (hk : bus.KeepsBytes holds) (h : holds state bytes) {width : Width}
    {data : Register} {address : Word} (ha : opcode.Accesses c (.store width) data address) :
    Succeeds bus c state opcode.execute fun _ _ t =>
      holds t (bytes.write width address ((c.readLate data).setWidth width.bits)) := by
  obtain ⟨hc, transfer, hs, hr, haccess, rfl, rfl⟩ := ha
  obtain ⟨record, htree⟩ := run_execute_of_single? hs hc hr
  apply succeeds_of_run_eq htree
  apply succeeds_proceed opcode.instructionSet .next
  apply succeeds_get_bind
  apply Succeeds.mono (SingleTransfer.succeeds_executeAt_store hk (hk.charge h 1) haccess _ _)
  rintro _ d t ⟨rfl, ht⟩
  exact ⟨rfl, ht⟩

/-- A swap does both. -/
theorem succeeds_swap (hk : bus.KeepsBytes holds) (h : holds state bytes) {word : Word}
    {swap : Swap} (hi : ArmInstruction.ofOpcode? word = some (.swap swap))
    (hc : (ArmInstruction.condition word).holds c.cpsr.flags = true) :
    Succeeds bus c state (executeArm word) fun _ d t =>
      d.Received swap.destination (bytes.loaded swap.width.format (c.read swap.base)) ∧
        holds t (bytes.write swap.width (c.read swap.base)
          ((c.read swap.source).setWidth swap.width.bits)) := by
  have htree := run_executeArm hc hi
  apply succeeds_of_run_eq htree
  apply succeeds_proceed .arm swap.destination.flow
  apply succeeds_get_bind
  -- the address and the new value are read from registers before the exchange
  apply succeeds_bind (Swap.succeeds_exchange hk (hk.charge h 1) swap _ _)
  rintro _ _ t ⟨rfl, rfl, ht⟩
  apply succeeds_charge_bind
  apply Succeeds.mono (CpuM.succeeds_writeOrBranch hk (hk.charge ht 1) _ _)
  rintro _ d t ⟨rfl, hreceived, ht⟩
  exact ⟨rfl, hreceived.proceeded .arm, ht⟩

end Opcode

/-- **Loads, stores and swaps see one little-endian memory.**  Over a bus that keeps a memory of
bytes, a load from any address delivers its bytes as `ByteMap.loaded` says, the byte at the address
lowest.  A store replaces the bytes of the unit around its address, and a load of the same size from
there delivers the stored value rotated by the misalignment.  A swap delivers what the load
delivers, and leaves the memory as a store of the value in its source register does. -/
theorem loads_stores_swaps_share_memory {σ : Type} {bus : Bus σ} {holds : σ → ByteMap → Prop}
    (hk : bus.KeepsBytes holds) {state : σ} {bytes : ByteMap} (h : holds state bytes) (c : Cpu)
    (address : Word) :
    (∀ format, (bytes.loaded format address).setWidth 8 = bytes address ∧
      ∀ (opcode : Opcode) (data : Register), opcode.Accesses c (.load format) data address →
        Succeeds bus c state opcode.execute fun _ d t =>
          d.Received data (bytes.loaded format address) ∧ holds t bytes) ∧
    (∀ width (opcode : Opcode) (data : Register), opcode.Accesses c (.store width) data address →
      let stored := (c.readLate data).setWidth width.bits
      Succeeds bus c state opcode.execute fun _ _ t =>
        holds t (bytes.write width address stored) ∧
        ∀ (d : Cpu) (follower : Opcode) (target : Register),
          follower.Accesses d (.load width.format) target address →
            Succeeds bus d t follower.execute fun _ e _ =>
              e.Received target
                ((stored.setWidth 32).rotateRight (8 * (address.toNat % width.bytes)))) ∧
    ∀ word swap, ArmInstruction.ofOpcode? word = some (.swap swap) →
      (ArmInstruction.condition word).holds c.cpsr.flags = true → c.read swap.base = address →
        Succeeds bus c state (executeArm word) fun _ d t =>
          d.Received swap.destination (bytes.loaded swap.width.format address) ∧
          holds t (bytes.write swap.width address
            ((c.read swap.source).setWidth swap.width.bits)) := by
  refine ⟨?_, ?_, ?_⟩
  · intro format
    refine ⟨bytes.setWidth_loaded format address, ?_⟩
    intro opcode data ha
    exact Opcode.succeeds_load hk h ha
  · intro width opcode data ha stored
    apply Succeeds.mono (Opcode.succeeds_store hk h ha)
    intro _ _ t ht
    -- what the store has left is a byte memory that the follower loads from
    refine ⟨ht, ?_⟩
    intro d follower target hfollows
    apply Succeeds.mono (Opcode.succeeds_load hk ht hfollows)
    rintro _ e _ ⟨hreceived, -⟩
    rw [bytes.loaded_write] at hreceived
    exact hreceived
  · rintro word swap hi hc rfl
    exact Opcode.succeeds_swap hk h hi hc

/-- A word stored one byte above a word boundary is loaded from there rotated by one byte. -/
theorem loads_stores_swaps_share_memory_misaligned :
    let c := (Cpu.reset.write (.low 0) 0x44332211).write (.low 1) 0x101
    let memory : Memory := { regions := [.whole] }
    Succeeds Memory.bus c memory (executeArm 0xE5810000) fun _ _ t =>
      Succeeds Memory.bus c t (executeArm 0xE5912000) fun _ d _ =>
        d.read (.low 2) = 0x11443322 := by
  intro c memory
  have hstore : (Opcode.arm 0xE5810000).Accesses c (.store .word) (.low 0) 0x101 :=
    ⟨by decide, ArmInstruction.ofSingleTransfer 0xE5810000, by decide, by decide, by decide,
      by decide, by decide⟩
  have hload : (Opcode.arm 0xE5912000).Accesses c (.load .word) (.low 2) 0x101 :=
    ⟨by decide, ArmInstruction.ofSingleTransfer 0xE5912000, by decide, by decide, by decide,
      by decide, by decide⟩
  have hshare := loads_stores_swaps_share_memory Memory.keepsBytes (⟨rfl, rfl⟩ :
    memory.regions = [.whole] ∧ memory.byte = memory.byte) c 0x101
  apply Succeeds.mono (hshare.2.1 .word _ _ hstore)
  rintro _ _ t ⟨-, hfollows⟩
  apply Succeeds.mono (hfollows c _ _ hload)
  -- the word is rotated by the byte that the address lies above its boundary
  intro _ d _ hreceived
  have hread : d.read (.low 2) = _ := hreceived
  rw [hread]
  decide

end Armv4t

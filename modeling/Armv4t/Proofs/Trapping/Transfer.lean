import Armv4t.Transfer.Swap
import Armv4t.Proofs.Block
import Armv4t.Proofs.Trapping.Exec

/-!
# Transfers on a host that traps

Loads and stores of one register, swaps, and loads and stores of a list of registers, performed on
cells.  A host has one type for the sizes of loads and of stores, so that it may be asked to store
with a signed format, where it traps; a transfer that an instruction describes never asks for that.
The loops over a register list look at the sixteen bits of the list one after the other.
-/

namespace Armv4t.Trapping

open HostM

/-! ### Accesses -/

/-- By how many bits a misaligned access appears rotated, from the part of the address under a
mask. -/
def rotationUnder (mask address : Word) : Checked Nat := do
  return (← mul (address &&& mask) 8).toNat

/-- Loads a register value from an address. -/
def load (format : LoadFormat) (address : Word) : HostM Word := do
  match format with
  | .byte => return (← read .byte address).setWidth 32
  | .halfword =>
    let rotation ← check (rotationUnder 0b1 address)
    return ((← read .halfword (address &&& ~~~0b1)).setWidth 32).rotateRight rotation
  | .word =>
    let rotation ← check (rotationUnder 0b11 address)
    return (← read .word (address &&& ~~~0b11)).rotateRight rotation
  | .signedByte => check (signExtend (← read .byte address) 8)
  | .signedHalfword =>
    if ← check (getBit address 0) then
      check (signExtend (← read .byte address) 8)
    else
      check (signExtend (← read .halfword address) 16)

/-- Stores the low bits of a register value at an address. -/
def store (format : LoadFormat) (address value : Word) : HostM Unit := do
  match format with
  | .byte => write .byte address (value.setWidth 8)
  | .halfword => write .halfword (address &&& ~~~0b1) (value.setWidth 16)
  | .word => write .word (address &&& ~~~0b11) value
  | .signedByte | .signedHalfword => check (.error .signedStore)

/-- Stops with the fault of an instruction that has no defined effect. -/
def refuse {α : Type} (opcode : Word) (reason : Unpredictable) : HostM α := do
  fail (.unpredictableInstruction opcode (← look Cells.fetchAddress) reason)

/-! ### Single transfers -/

/-- A load or store of one register with the values of its base and its offset. -/
structure DataTransfer where
  load : Bool
  format : LoadFormat
  /-- The register loaded or stored. -/
  data : Register
  base : Register
  baseAddress : Word
  offset : Word
  /-- Whether the offset is added to the base or subtracted from it. -/
  up : Bool
  indexing : Indexing
  /-- Whether a load of the program counter selects the instruction set. -/
  exchange : Bool
deriving DecidableEq, Repr

namespace DataTransfer

/-- The base with the offset applied. -/
def indexed (transfer : DataTransfer) : Word :=
  if transfer.up then transfer.baseAddress + transfer.offset
  else transfer.baseAddress - transfer.offset

/-- The address of the access. -/
def address (transfer : DataTransfer) : Word :=
  match transfer.indexing with
  | .pre _ => transfer.indexed
  | .post _ => transfer.baseAddress

/-- Performs a load. -/
def performLoad (transfer : DataTransfer) : HostM Flow := do
  let value ← Trapping.load transfer.format transfer.address
  charge 1
  if transfer.indexing.writesBack ∧ transfer.base ≠ transfer.data then
    writeRegister transfer.base transfer.indexed
  if transfer.data = .pc ∧ transfer.exchange then
    branchExchange value
  else
    writeOrBranch transfer.data value

/-- Performs a store. -/
def performStore (transfer : DataTransfer) : HostM Flow := do
  let value ← look (·.readLate transfer.data)
  Trapping.store transfer.format transfer.address value
  if transfer.indexing.writesBack then writeRegister transfer.base transfer.indexed
  return .next

/-- Performs a transfer. -/
def perform (opcode : Word) (transfer : DataTransfer) : HostM Flow := do
  if transfer.indexing.writesBack ∧ transfer.base = .pc then refuse opcode .writeBackToPc
  else if transfer.load then transfer.performLoad
  else transfer.performStore

end DataTransfer

/-! ### Swaps -/

/-- Performs the memory side of a swap and yields the old value. -/
def exchange (byte : Bool) (address new : Word) : HostM Word := do
  if byte then
    let old ← read .byte address
    write .byte address (new.setWidth 8)
    return old.setWidth 32
  else
    let rotation ← check (rotationUnder 0b11 address)
    let old ← read .word (address &&& ~~~0b11)
    write .word (address &&& ~~~0b11) new
    return old.rotateRight rotation

/-- Performs a swap. -/
def swap (byte : Bool) (base destination source : Register) : HostM Flow := do
  let address ← look (·.read base)
  let new ← look (·.read source)
  let old ← exchange byte address new
  charge 1
  writeOrBranch destination old

/-! ### Block transfers -/

/-- Gives a register, in the bank of User mode or as it is named, a loaded word. -/
def writeLoaded (userBank : Bool) (register : Register) (value : Word) : HostM Unit :=
  if userBank then update (·.writeIn .user register value) else writeRegister register value

/-- Loads the listed registers among those of the given numbers from consecutive words.  The word
for the program counter is kept for the end. -/
def loadListed (list : BitVec 16) (userBank : Bool) :
    List Nat → Word → Option Word → HostM (Option Word)
  | [], _, target => return target
  | number :: rest, address, target => do
    if ← check (getBit list number) then
      let register ← check (registerOf (.ofNat 32 number))
      let value ← read .word (address &&& ~~~0b11)
      if register = .pc then
        loadListed list userBank rest (address + 4) (some value)
      else
        writeLoaded userBank register value
        loadListed list userBank rest (address + 4) target
    else
      loadListed list userBank rest address target

/-- The value stored for a listed register.  The base is stored as it was only if its number is
`lowest`. -/
def storedWord (transfer : BlockTransfer) (base final : Word) (userBank : Bool) (lowest : Nat)
    (register : Register) (cells : Cells) : Checked Word := do
  if register = transfer.base ∧ transfer.writeBack then
    return if register.index.val = lowest then base else final
  else if userBank ∧ register ≠ .pc then
    cells.readIn .user register
  else
    cells.readLate register

/-- Stores the listed registers among those of the given numbers to consecutive words. -/
def storeListed (list : BitVec 16) (value : Register → Cells → Checked Word) :
    List Nat → Word → HostM Unit
  | [], _ => return ()
  | number :: rest, address => do
    if ← check (getBit list number) then
      let register ← check (registerOf (.ofNat 32 number))
      write .word (address &&& ~~~0b11) (← look (value register))
      storeListed list value rest (address + 4)
    else
      storeListed list value rest address

/-- Writes the base of a block load back, unless it was loaded. -/
def writeBackLoaded (transfer : BlockTransfer) (baseListed : Bool) (final : Word) : HostM Unit :=
  if transfer.writeBack ∧ baseListed = false then writeRegister transfer.base final else return ()

/-- Performs a block load from a start address. -/
def performBlockLoad (transfer : BlockTransfer) (userBank : Bool) (start final : Word) :
    HostM Flow := do
  let baseListed ← check (getBit transfer.list transfer.base.index)
  let target ← loadListed transfer.list userBank (List.range 16) start none
  charge 1
  writeBackLoaded transfer baseListed final
  match target with
  | some target =>
    if transfer.mark then restoreStatus
    branchTo target
  | none => return .next

/-- Performs a block store to a start address. -/
def performBlockStore (transfer : BlockTransfer) (userBank : Bool) (start base final : Word) :
    HostM Flow := do
  let lowest := transfer.list.ctz.toNat
  storeListed transfer.list (storedWord transfer base final userBank lowest) (List.range 16) start
  if transfer.writeBack then writeRegister transfer.base final
  return .next

/-- The base after write-back, from the size of the block. -/
def finalAddress (up : Bool) (base size : Word) : Word :=
  if up then base + size else base - size

/-- The address of the first word of a block, from the size of the block. -/
def startAddress (up pre : Bool) (base size : Word) : Word :=
  let lowest := if up then base else base - size
  let skipsFirst := if up then pre else !pre
  if skipsFirst then lowest + 4 else lowest

/-- Performs a block transfer. -/
def blockTransfer (opcode : Word) (transfer : BlockTransfer) : HostM Flow := do
  if transfer.list = 0 then
    refuse opcode .emptyRegisterList
  else if transfer.writeBack ∧ transfer.base = .pc then
    refuse opcode .writeBackToPc
  else
    let loadsPc := transfer.load && (← check (getBit transfer.list 15))
    if loadsPc ∧ transfer.mark then checkRestore
    let size ← check (mul 4 (transfer.list.cpop.setWidth 32))
    let base ← look (·.read transfer.base)
    let start := startAddress transfer.up transfer.pre base size
    let final := finalAddress transfer.up base size
    let userBank := transfer.mark && !loadsPc
    if transfer.load then
      performBlockLoad transfer userBank start final
    else
      performBlockStore transfer userBank start base final

variable {α : Type} {cpu : Cpu}

/-! ### Following accesses -/

/-- The part of an address under a small mask is no reason to overflow. -/
theorem rotationUnder_of_le {mask : Word} (h : mask.toNat ≤ 3) (address : Word) :
    rotationUnder mask address = .ok (8 * (address &&& mask).toNat) := by
  have hle : (address &&& mask).toNat ≤ 3 := by
    rw [BitVec.toNat_and]
    exact Nat.le_trans Nat.and_le_right h
  have height : (8 : Word).toNat = 8 := rfl
  have hlt : (address &&& mask).toNat * (8 : Word).toNat < 2 ^ 32 := by
    rw [height]
    omega
  unfold rotationUnder
  rw [mul_eq_ok hlt, ok_bind, pure_eq_ok, BitVec.toNat_mul, Nat.mod_eq_of_lt hlt, height,
    Nat.mul_comm]

theorem rotationUnder_halfword (address : Word) :
    rotationUnder 0b1 address = .ok (Width.halfword.rotation address) :=
  rotationUnder_of_le (by decide) address

theorem rotationUnder_word (address : Word) :
    rotationUnder 0b11 address = .ok (Width.word.rotation address) :=
  rotationUnder_of_le (by decide) address

/-- A value is extended from its own width. -/
theorem signExtend_self {w : Nat} (value : BitVec w) (h : 0 < w) (h' : w ≤ 32) :
    signExtend value (BitVec.ofNat 32 w) = .ok (value.signExtend 32) := by
  have hback : (value.setWidth 32).setWidth w = value := by
    rw [BitVec.setWidth_setWidth_of_le _ h', BitVec.setWidth_eq]
  rw [signExtend_eq_ok h h', hback]

theorem follows_load (format : LoadFormat) (address : Word) :
    Follows cpu.cells cpu (load format address) (format.load address) := by
  -- the lengths of a byte and a halfword are among those that may be extended
  have hbyte (value : Byte) : signExtend value 8 = .ok (value.signExtend 32) :=
    signExtend_self value (by decide) (by decide)
  have hhalfword (value : Halfword) : signExtend value 16 = .ok (value.signExtend 32) :=
    signExtend_self value (by decide) (by decide)
  cases format with
  | byte => exact follows_bind (follows_read .byte address) fun _ c => follows_pure _
  | halfword =>
    refine follows_check (rotationUnder_halfword address) ?_
    exact follows_bind (follows_read .halfword _) fun _ c => follows_pure _
  | word =>
    refine follows_check (rotationUnder_word address) ?_
    exact follows_bind (follows_read .word _) fun _ c => follows_pure _
  | signedByte =>
    refine follows_bind (follows_read .byte address) fun value c => ?_
    rw [hbyte]
    exact follows_pure _
  | signedHalfword =>
    -- at an odd address the byte is loaded instead
    have hbit : getBit address 0 = .ok (address.getLsbD 0) := getBit_of_lt (by decide)
    refine follows_check hbit ?_
    simp only [LoadFormat.load]
    split_ifs with hodd
    · refine follows_bind (follows_read .byte address) fun value c => ?_
      rw [hbyte]
      exact follows_pure _
    · refine follows_bind (follows_read .halfword address) fun value c => ?_
      rw [hhalfword]
      exact follows_pure _

/-- The format of a load of the same width. -/
def formatOf : Width → LoadFormat
  | .byte => .byte
  | .halfword => .halfword
  | .word => .word

/-- A store with an unsigned format does not trap. -/
theorem follows_store (width : Width) (address value : Word) :
    Follows cpu.cells cpu (store (formatOf width) address value) (width.store address value) := by
  cases width with
  | byte => exact follows_write .byte address _
  | halfword => exact follows_write .halfword _ _
  | word =>
    have hall : value.setWidth 32 = value := BitVec.setWidth_eq value
    have hstore : Follows cpu.cells cpu _ _ :=
      follows_write .word (Width.word.align address) (value.setWidth 32)
    rwa [hall] at hstore

/-! ### Following single transfers -/

/-- Performs an instruction unless it is refused. -/
def attempt (opcode : Word) (refusal? : Option Unpredictable) (action : StepM Flow) :
    StepM Flow := do
  match refusal? with
  | some reason => throw (.unpredictableInstruction opcode (← get).fetchAddress reason)
  | none => action

theorem follows_refuse (opcode : Word) (reason : Unpredictable) (action : StepM Flow) :
    Follows cpu.cells cpu (refuse opcode reason) (attempt opcode (some reason) action) := by
  refine follows_look (Cells.fetchAddress_cells cpu) (follows_get ?_)
  exact follows_fail _

/-- The access of a host's transfer. -/
def DataTransfer.ofAccess (access : Access) : Bool × LoadFormat :=
  match access with
  | .load format => (true, format)
  | .store width => (false, formatOf width)

/-- The access of a format and a direction, for bytes and words. -/
theorem ofAccess_byteOrWord (byte load : Bool) :
    DataTransfer.ofAccess (if byte then .ofByte load else .ofWord load) =
      (load, if byte then .byte else .word) := by
  cases byte <;> cases load <;> rfl

/-- The host's form of a transfer with given values of base and offset. -/
def DataTransfer.of (transfer : SingleTransfer) (base offset : Word) (exchange : Bool) :
    DataTransfer where
  load := (ofAccess transfer.access).1
  format := (ofAccess transfer.access).2
  data := transfer.data
  base := transfer.base
  baseAddress := base
  offset := offset
  up := transfer.up
  indexing := if let .pre writeBack := transfer.indexing then .pre writeBack else .post false
  exchange := exchange

section SingleTransfer

variable (transfer : SingleTransfer) (base offset : Word) (exchange : Bool)

/-- The parts of a transfer are those of the host's form. -/
theorem DataTransfer.parts_of :
    let form := DataTransfer.of transfer base offset exchange
    form.data = transfer.data ∧ form.base = transfer.base ∧ form.exchange = exchange ∧
      form.indexing.writesBack = transfer.indexing.writesBack ∧
      form.indexed = transfer.indexed base offset ∧ form.address = transfer.address base offset ∧
      form.load = (ofAccess transfer.access).1 ∧ form.format = (ofAccess transfer.access).2 := by
  obtain ⟨access, data, base, offset, up, indexing⟩ := transfer
  cases indexing <;> exact ⟨rfl, rfl, rfl, rfl, rfl, rfl, rfl, rfl⟩

/-- A host does with a transfer what the processor does, provided that it exchanges the instruction
set for the loads that do. -/
theorem follows_perform (opcode : Word)
    (h : ∀ format, transfer.access = .load format → transfer.data = .pc →
      (exchange = true ↔ format = .word)) :
    Follows cpu.cells cpu ((DataTransfer.of transfer base offset exchange).perform opcode)
      (attempt opcode transfer.refusal? (transfer.executeAt base offset)) := by
  obtain ⟨hdata, hbase, hexchange, hwrites, hindexed, haddress, hload, hformat⟩ :=
    DataTransfer.parts_of transfer base offset exchange
  generalize DataTransfer.of transfer base offset exchange = form at *
  unfold DataTransfer.perform SingleTransfer.refusal?
  rw [hwrites, hbase]
  -- the host splits by the direction first, and the access has the same direction
  split_ifs with hrefused hdirection
  · exact follows_refuse opcode .writeBackToPc _
  · cases haccess : transfer.access with
    | store width =>
      rw [hload, haccess] at hdirection
      exact absurd hdirection Bool.false_ne_true
    | load format =>
      have hsame : transfer.data = .pc ∧ exchange = true ↔ transfer.data = .pc ∧ format = .word :=
        and_congr_right (h format haccess)
      rw [haccess] at hformat
      simp only [DataTransfer.performLoad, attempt, SingleTransfer.executeAt, haccess, hformat,
        haddress, hwrites, hbase, hdata, hindexed, hexchange, DataTransfer.ofAccess, hsame]
      refine follows_bind (follows_load format _) fun value c => follows_charge_bind rfl ?_
      refine follows_when (fun hback => ?_) fun c => ?_
      · exact follows_writeRegister_modify (fun hpc => hrefused ⟨hback.1, hpc⟩) _
      · split_ifs
        · exact follows_branchExchange value
        · exact follows_writeOrBranch transfer.data value
  · cases haccess : transfer.access with
    | load format =>
      rw [hload, haccess] at hdirection
      exact absurd rfl hdirection
    | store width =>
      rw [haccess] at hformat
      simp only [DataTransfer.performStore, attempt, SingleTransfer.executeAt, haccess, hformat,
        haddress, hwrites, hbase, hdata, hindexed, DataTransfer.ofAccess]
      refine follows_lookReadLate transfer.data (follows_get ?_)
      refine follows_bind (follows_store width _ _) fun _ c => ?_
      refine follows_when (fun hback => ?_) fun c => ?_
      · exact follows_writeRegister_modify (fun hpc => hrefused ⟨hback, hpc⟩) _
      · exact follows_pure _

end SingleTransfer

/-! ### Following swaps -/

theorem follows_exchange (byte : Bool) (address new : Word) :
    Follows cpu.cells cpu (exchange byte address new) (Swap.exchange byte address new) := by
  unfold exchange Swap.exchange
  split_ifs
  · refine follows_bind (follows_read .byte address) fun old c => ?_
    exact follows_bind (follows_write .byte address _) fun _ c => follows_pure _
  · refine follows_check (rotationUnder_word address) ?_
    refine follows_bind (follows_read .word _) fun old c => ?_
    exact follows_bind (follows_write .word _ _) fun _ c => follows_pure _

theorem follows_swap (operation : Swap) :
    Follows cpu.cells cpu
      (swap operation.byte operation.base operation.destination operation.source)
      operation.execute := by
  unfold swap Swap.execute
  refine follows_lookRead operation.base ?_
  refine follows_lookRead operation.source (follows_get ?_)
  refine follows_bind (follows_exchange operation.byte _ _) fun old c => ?_
  exact follows_charge_bind rfl (follows_writeOrBranch operation.destination old)

/-! ### Register lists -/

section Lists

variable (transfer : BlockTransfer)

/-- The register of one of the sixteen numbers. -/
theorem registerOf_number : ∀ number : Fin 16,
    registerOf (.ofNat 32 number) = .ok (.ofIndex number) := by
  intro number
  rw [registerOf_eq_ok]
  revert number
  decide

/-- The size of a block is computed without overflow. -/
theorem size_eq_ok : mul 4 (transfer.list.cpop.setWidth 32) = .ok transfer.size := by
  have hcount : transfer.list.cpop.setWidth 32 = BitVec.ofNat 32 transfer.registers.length := by
    rw [BlockTransfer.length_registers]
    exact (BitVec.ofNat_toNat 32 transfer.list.cpop).symm
  have hle := transfer.list.toNat_cpop_le
  have hnat : (transfer.list.cpop.setWidth 32).toNat = transfer.list.cpop.toNat :=
    BitVec.toNat_setWidth_of_le (by decide)
  have hfour : (4 : Word).toNat = 4 := rfl
  have hlt : (4 : Word).toNat * (transfer.list.cpop.setWidth 32).toNat < 2 ^ 32 := by
    rw [hnat, hfour]
    omega
  rw [mul_eq_ok hlt, hcount]
  rfl

/-- The lowest listed register is the one whose number counts the zeros below it. -/
theorem head?_registers (h : transfer.list ≠ 0) (register : Register) :
    transfer.registers.head? = some register ↔ register.index.val = transfer.list.ctz.toNat := by
  have hset := BitVec.getLsbD_true_ctz_of_ne_zero h
  have hlt : transfer.list.ctz.toNat < 16 := by
    by_contra hge
    rw [BitVec.getLsbD_of_ge _ _ (by omega)] at hset
    exact Bool.false_ne_true hset
  generalize hn : (⟨transfer.list.ctz.toNat, hlt⟩ : Fin 16) = number
  have hval : number.val = transfer.list.ctz.toNat := congrArg Fin.val hn.symm
  -- the registers before the one of that number have lower numbers, and their bits are clear
  have hsplit : ∀ number : Fin 16, Register.all =
      Register.all.take number ++ .ofIndex number :: Register.all.drop (number + 1) := by
    decide
  have hbelow : ∀ number : Fin 16, ∀ lower ∈ Register.all.take number, lower.index < number := by
    decide
  have hhead : transfer.registers.head? = some (.ofIndex number) := by
    rw [BlockTransfer.registers, List.head?_filter, List.find?_eq_some_iff_append]
    refine ⟨?_, _, _, hsplit number, fun lower hl => ?_⟩
    · rwa [BlockTransfer.lists, Register.index_ofIndex, hval]
    · have hlow : lower.index.val < transfer.list.ctz.toNat := by
        rw [← hval]
        exact hbelow number lower hl
      rw [BlockTransfer.lists, BitVec.getLsbD_false_of_lt_ctz hlow, Bool.not_false]
  rw [hhead, Option.some_inj, ← hval]
  constructor
  · rintro rfl
    rw [Register.index_ofIndex]
  · intro hindex
    rw [← Fin.ext hindex, Register.ofIndex_index]

end Lists

/-! ### Following the loops -/

section Loops

variable (transfer : BlockTransfer)

/-- The listed registers among those of the given numbers. -/
def listed (numbers : List (Fin 16)) : List Register :=
  (numbers.map Register.ofIndex).filter transfer.lists

theorem listed_cons_of_lists {number : Fin 16} (h : transfer.lists (.ofIndex number) = true)
    (rest : List (Fin 16)) :
    listed transfer (number :: rest) = .ofIndex number :: listed transfer rest := by
  rw [listed, List.map_cons, List.filter_cons_of_pos h]
  rfl

theorem listed_cons_of_not_lists {number : Fin 16} (h : ¬transfer.lists (.ofIndex number) = true)
    (rest : List (Fin 16)) : listed transfer (number :: rest) = listed transfer rest := by
  rw [listed, List.map_cons, List.filter_cons_of_neg h]
  rfl

/-- The bit of a list that stands for a register. -/
theorem getBit_list (number : Fin 16) :
    getBit transfer.list number = .ok (transfer.lists (.ofIndex number)) := by
  rw [getBit_of_lt number.isLt, BlockTransfer.lists, Register.index_ofIndex]

/-- A store leaves the processor as it is. -/
theorem follows_write_bind {width : Width} {address : Word} {value : BitVec width.bits}
    {x : HostM α} {y : StepM α} (k : Follows cpu.cells cpu x y) :
    Follows cpu.cells cpu
      (do
        HostM.write width address value
        x)
      (do
        StepM.write width address value
        y) := by
  refine .request (.write width address value) ?_
  rintro (fault | ⟨⟩)
  · exact follows_fail (.bus fault)
  · exact k

theorem follows_storeListed {value : Register → Cells → Checked Word} {value' : Register → Word}
    (h : ∀ register, value register cpu.cells = .ok (value' register)) (numbers : List (Fin 16))
    (address : Word) :
    Follows cpu.cells cpu (storeListed transfer.list value (numbers.map Fin.val) address)
      (BlockTransfer.storeWords value' (listed transfer numbers) address) := by
  induction numbers generalizing address with
  | nil => exact follows_pure ()
  | cons number rest ih =>
    rw [List.map_cons, storeListed]
    refine follows_check (getBit_list transfer number) ?_
    by_cases hlists : transfer.lists (.ofIndex number) = true
    · rw [if_pos hlists, listed_cons_of_lists transfer hlists, BlockTransfer.storeWords]
      refine follows_check (registerOf_number number) (follows_look (h _) ?_)
      exact follows_write_bind (ih _)
    · -- a register that is not listed takes no place in the block
      rw [if_neg hlists, listed_cons_of_not_lists transfer hlists]
      exact ih address

/-- Reads the word of a block after a number of others for the program counter, if the program
counter is listed. -/
def readTarget (start : Word) (count : Nat) : StepM (Option Word) := do
  if transfer.lists .pc then
    return some (← StepM.read .word (slot start count))
  else
    return none

/-- A block load after the check of the status that it restores, with the word for the program
counter in one place. -/
def loadBlock (base : Word) : StepM Flow := do
  BlockTransfer.loadWords transfer.writeLoaded transfer.generalRegisters (transfer.start base)
  let target ← readTarget transfer (transfer.start base) transfer.generalRegisters.length
  CpuM.charge 1
  modify (transfer.writeBackLoaded base)
  match target with
  | some target =>
    if transfer.mark then StepM.restorePsr
    CpuM.branchTo target
  | none => return .next

theorem executeLoad_eq (base : Word) :
    transfer.executeLoad base = (do
      if transfer.mark ∧ transfer.lists .pc then StepM.checkRestore
      loadBlock transfer base) := by
  unfold BlockTransfer.executeLoad loadBlock readTarget
  by_cases hpc : transfer.lists .pc = true
  · simp only [hpc, if_true, bind_assoc, pure_bind, slot]
  · simp only [hpc, if_false, pure_bind, Bool.false_eq_true]

theorem follows_writeLoaded {register : Register} (h : register ≠ .pc) (value : Word) :
    Follows cpu.cells cpu (writeLoaded transfer.isUserBank register value)
      (modify (transfer.writeLoaded register value)) := by
  unfold writeLoaded BlockTransfer.writeLoaded
  split_ifs
  · exact follows_update_modify (Cells.writeIn_cells cpu .user register value)
  · exact follows_writeRegister_modify h value

/-- The numbers of the general registers come first, then that of the program counter. -/
theorem follows_loadListed (numbers : List (Fin 16)) (hpc : 15 ∉ numbers) (address : Word) :
    Follows cpu.cells cpu
      (loadListed transfer.list transfer.isUserBank (numbers.map Fin.val ++ [15]) address none)
      (do
        BlockTransfer.loadWords transfer.writeLoaded (listed transfer numbers) address
        readTarget transfer address (listed transfer numbers).length) := by
  induction numbers generalizing cpu address with
  | nil =>
    have hbit : getBit transfer.list 15 = .ok (transfer.lists .pc) := getBit_list transfer 15
    have hregister : registerOf (.ofNat 32 15) = .ok .pc := registerOf_number 15
    rw [List.map_nil, List.nil_append, loadListed]
    refine follows_check hbit ?_
    change Follows _ _ _ (readTarget transfer address 0)
    unfold readTarget
    by_cases hlists : transfer.lists .pc = true
    · rw [if_pos hlists, if_pos hlists, slot_zero]
      refine follows_check hregister ?_
      exact follows_bind (follows_read .word _) fun value c => follows_pure _
    · rw [if_neg hlists, if_neg hlists]
      exact follows_pure none
  | cons number rest ih =>
    have hrest : 15 ∉ rest := fun h => hpc (List.mem_cons_of_mem _ h)
    have hgeneral : Register.ofIndex number ≠ .pc := by
      intro he
      have hnumber := congrArg Register.index he
      rw [Register.index_ofIndex] at hnumber
      exact hpc (hnumber ▸ List.mem_cons_self)
    rw [List.map_cons, List.cons_append, loadListed]
    refine follows_check (getBit_list transfer number) ?_
    by_cases hlists : transfer.lists (.ofIndex number) = true
    · simp only [if_pos hlists, listed_cons_of_lists transfer hlists, BlockTransfer.loadWords,
        bind_assoc, List.length_cons]
      refine follows_check (registerOf_number number) ?_
      refine follows_bind (follows_read .word _) fun value c => ?_
      rw [if_neg hgeneral]
      refine follows_bind (follows_writeLoaded transfer hgeneral value) fun _ c => ?_
      -- the word for the program counter lies one further on, counted from the old address
      have hslot : readTarget transfer address ((listed transfer rest).length + 1) =
          readTarget transfer (address + 4) (listed transfer rest).length := by
        unfold readTarget
        rw [slot_succ]
      rw [hslot]
      exact ih hrest (address + 4)
    · rw [if_neg hlists, listed_cons_of_not_lists transfer hlists]
      exact ih hrest address

end Loops

/-! ### Following block transfers -/

section Blocks

variable (transfer : BlockTransfer)

/-- The base is not written back to the program counter by a transfer that is not refused. -/
theorem follows_writeBackLoaded (h : ¬(transfer.writeBack = true ∧ transfer.base = .pc))
    (base : Word) :
    Follows cpu.cells cpu
      (writeBackLoaded transfer (transfer.lists transfer.base) (transfer.final base))
      (modify (transfer.writeBackLoaded base)) := by
  have hiff : (transfer.writeBack = true ∧ (!transfer.lists transfer.base) = true) ↔
      transfer.writeBack = true ∧ transfer.lists transfer.base = false := by
    rw [Bool.not_eq_true']
  unfold writeBackLoaded BlockTransfer.writeBackLoaded
  simp only [hiff]
  split_ifs with hback
  · exact follows_writeRegister_modify (fun hpc => h ⟨hback.1, hpc⟩) _
  · exact follows_pure ()

theorem startAddress_eq (base : Word) :
    startAddress transfer.up transfer.pre base transfer.size = transfer.start base := by
  unfold startAddress BlockTransfer.start
  cases transfer.up <;> cases transfer.pre <;> rfl

theorem follows_performBlockLoad (h : ¬(transfer.writeBack = true ∧ transfer.base = .pc))
    (base : Word) :
    Follows cpu.cells cpu
      (performBlockLoad transfer transfer.isUserBank (transfer.start base) (transfer.final base))
      (loadBlock transfer base) := by
  -- the sixteen numbers, the program counter last, which the program loads by itself
  have hnumbers : List.range 16 = ((List.finRange 16).take 15).map Fin.val ++ [15] := by decide
  have hpc : 15 ∉ (List.finRange 16).take 15 := by decide
  have hgeneral : transfer.generalRegisters = listed transfer ((List.finRange 16).take 15) :=
    congrArg (List.filter transfer.lists) (by decide)
  have hbase : getBit transfer.list transfer.base.index = .ok (transfer.lists transfer.base) :=
    getBit_of_lt transfer.base.index.isLt
  unfold performBlockLoad loadBlock
  rw [hnumbers, hgeneral, ← bind_assoc]
  -- whether the base is listed is looked up before the first access
  refine follows_check hbase ?_
  refine follows_bind (follows_loadListed transfer _ hpc _) fun target c => ?_
  refine follows_charge_bind rfl ?_
  refine follows_bind (follows_writeBackLoaded transfer h base) fun _ c => ?_
  -- without the program counter there is nowhere to branch to
  cases target with
  | none => exact follows_pure _
  | some target =>
    exact follows_when (fun _ => follows_restoreStatus) fun c => follows_branchTo target

/-- A host stores the words that the processor stores. -/
theorem storedWord_cells (h : transfer.list ≠ 0) (register : Register) :
    storedWord transfer (cpu.read transfer.base) (transfer.final (cpu.read transfer.base))
        transfer.isUserBank transfer.list.ctz.toNat register cpu.cells =
      .ok (transfer.storedValue cpu register) := by
  have hlowest := head?_registers transfer h register
  unfold storedWord BlockTransfer.storedValue
  simp only [hlowest, and_comm (a := register = transfer.base), Cells.readIn_cells,
    Cells.readLate_cells, pure_eq_ok, and_comm (a := transfer.isUserBank = true)]
  split_ifs <;> rfl

theorem follows_performBlockStore (h : transfer.list ≠ 0)
    (h' : ¬(transfer.writeBack = true ∧ transfer.base = .pc)) :
    Follows cpu.cells cpu
      (performBlockStore transfer transfer.isUserBank (transfer.start (cpu.read transfer.base))
        (cpu.read transfer.base) (transfer.final (cpu.read transfer.base)))
      (transfer.executeStore (cpu.read transfer.base)) := by
  have hnumbers : List.range 16 = (List.finRange 16).map Fin.val := by decide
  unfold performBlockStore BlockTransfer.executeStore
  rw [hnumbers]
  refine follows_get ?_
  refine follows_bind (follows_storeListed transfer (storedWord_cells transfer h) _ _) fun _ c => ?_
  refine follows_when (fun hback => ?_) fun c => follows_pure _
  exact follows_writeRegister_modify (fun hpc => h' ⟨hback, hpc⟩) _

theorem follows_blockTransfer (opcode : Word) :
    Follows cpu.cells cpu (blockTransfer opcode transfer)
      (attempt opcode transfer.refusal? transfer.execute) := by
  have hbit : getBit transfer.list 15 = .ok (transfer.lists .pc) := getBit_list transfer 15
  have huser : (transfer.mark && !(transfer.load && transfer.lists .pc)) =
      transfer.isUserBank := rfl
  have hstart := startAddress_eq transfer (cpu.read transfer.base)
  have hfinal : finalAddress transfer.up (cpu.read transfer.base) transfer.size =
      transfer.final (cpu.read transfer.base) := rfl
  unfold blockTransfer BlockTransfer.refusal?
  -- the two refusals first, as neither has an access
  by_cases hempty : transfer.list = 0
  · simp only [hempty, if_true]
    exact follows_refuse opcode .emptyRegisterList _
  by_cases hback : transfer.writeBack = true ∧ transfer.base = .pc
  · simp only [hempty, if_false, hback, if_true, and_self]
    exact follows_refuse opcode .writeBackToPc _
  simp only [hempty, hback, if_false, attempt, BlockTransfer.execute]
  refine follows_check hbit (follows_get ?_)
  simp only [huser]
  -- a load may restore the status, and checks that it can before the first access
  by_cases hload : transfer.load = true
  · have hblock : Follows cpu.cells cpu _ _ :=
      follows_performBlockLoad transfer hback (cpu.read transfer.base)
    rw [← hstart, ← hfinal] at hblock
    simp only [hload, Bool.true_and, if_true, executeLoad_eq]
    by_cases hrestore : transfer.mark = true ∧ transfer.lists .pc = true
    · simp only [hrestore, and_self, if_true]
      refine follows_checkRestore_bind (follows_check (size_eq_ok transfer) ?_)
      exact follows_lookRead transfer.base hblock
    · simp only [hrestore, and_comm.not.1 hrestore, if_false]
      refine follows_check (size_eq_ok transfer) ?_
      exact follows_lookRead transfer.base hblock
  · have hstore : Follows cpu.cells cpu _ _ := follows_performBlockStore transfer hempty hback
    rw [← hstart, ← hfinal] at hstore
    simp only [hload, Bool.false_and, Bool.false_eq_true, false_and, if_false]
    refine follows_check (size_eq_ok transfer) ?_
    exact follows_lookRead transfer.base hstore

end Blocks

end Armv4t.Trapping

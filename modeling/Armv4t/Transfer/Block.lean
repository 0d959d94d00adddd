import Armv4t.Exec.Basic

/-!
# Block transfers

Loads and stores of a list of registers.  Whatever the addressing mode, the listed registers occupy
ascending words from `BlockTransfer.start` on, the lowest register first.
-/

namespace Armv4t

/-- A load or store of a list of registers. -/
structure BlockTransfer where
  load : Bool
  base : Register
  /-- The listed registers, one bit for each. -/
  list : BitVec 16
  /-- Whether the block lies above the base or below it. -/
  up : Bool
  /-- Whether the word at the base is left out of the block at its near end. -/
  pre : Bool
  writeBack : Bool
  /-- The mark `^`: the registers are those of User mode, or, when the program counter is loaded,
  the saved status is restored with it. -/
  mark : Bool
deriving DecidableEq, Repr

namespace BlockTransfer

/-- Whether a register is listed. -/
def lists (transfer : BlockTransfer) (register : Register) : Bool :=
  transfer.list.getLsbD register.index

/-- The listed registers in ascending order. -/
def registers (transfer : BlockTransfer) : List Register :=
  Register.all.filter transfer.lists

/-- The listed registers other than the program counter, in ascending order. -/
def generalRegisters (transfer : BlockTransfer) : List Register :=
  Register.general.filter transfer.lists

/-- The size of the block in bytes. -/
def size (transfer : BlockTransfer) : Word :=
  4 * BitVec.ofNat 32 transfer.registers.length

/-- Whether the transfer ends with a load of the program counter. -/
def loadsPc (transfer : BlockTransfer) : Bool :=
  transfer.load && transfer.lists .pc

/-- Whether the transfer is to or from the registers of User mode. -/
def isUserBank (transfer : BlockTransfer) : Bool :=
  transfer.mark && !transfer.loadsPc

/-- A transfer of no register, or with write-back to the program counter, has no defined effect. -/
def refusal? (transfer : BlockTransfer) : Option Unpredictable :=
  if transfer.list = 0 then some .emptyRegisterList
  else if transfer.writeBack ∧ transfer.base = .pc then some .writeBackToPc
  else none

/-- The base after write-back. -/
def final (transfer : BlockTransfer) (base : Word) : Word :=
  if transfer.up then base + transfer.size else base - transfer.size

/-- The address of the lowest listed register's word. -/
def start (transfer : BlockTransfer) (base : Word) : Word :=
  let lowest := if transfer.up then base else base - transfer.size
  if transfer.up = transfer.pre then lowest + 4 else lowest

/-- Loads registers from consecutive words, each written as it arrives. -/
def loadWords (write : Register → Word → Cpu → Cpu) : List Register → Word → StepM Unit
  | [], _ => return ()
  | register :: rest, address => do
    let value ← StepM.read .word (Width.word.align address)
    modify (write register value)
    loadWords write rest (address + 4)

/-- Stores register values to consecutive words. -/
def storeWords (value : Register → Word) : List Register → Word → StepM Unit
  | [], _ => return ()
  | register :: rest, address => do
    StepM.write .word (Width.word.align address) (value register)
    storeWords value rest (address + 4)

/-- How a loaded word reaches its register. -/
def writeLoaded (transfer : BlockTransfer) (register : Register) (value : Word) (cpu : Cpu) : Cpu :=
  if transfer.isUserBank then cpu.writeIn .user register value else cpu.write register value

/-- The value stored for a listed register.  With write-back the base is stored as it was only if it
is the lowest listed register. -/
def storedValue (transfer : BlockTransfer) (cpu : Cpu) (register : Register) : Word :=
  let base := cpu.read transfer.base
  if transfer.writeBack ∧ register = transfer.base then
    if transfer.registers.head? = some register then base else transfer.final base
  else if register ≠ .pc ∧ transfer.isUserBank then
    cpu.readIn .user register
  else
    cpu.readLate register

/-- The processor after a block load from a base, which is written back unless it was loaded. -/
def writeBackLoaded (transfer : BlockTransfer) (base : Word) (cpu : Cpu) : Cpu :=
  if transfer.writeBack ∧ !transfer.lists transfer.base then
    cpu.write transfer.base (transfer.final base)
  else cpu

/-- Performs a block load.  The program counter is loaded last, after the status it restores has
been found valid at the outset, and a listed base keeps the loaded value. -/
def executeLoad (transfer : BlockTransfer) (base : Word) : StepM Flow := do
  if transfer.mark ∧ transfer.lists .pc then StepM.checkRestore
  let start := transfer.start base
  loadWords transfer.writeLoaded transfer.generalRegisters start
  if transfer.lists .pc then
    let last := start + 4 * BitVec.ofNat 32 transfer.generalRegisters.length
    let target ← StepM.read .word (Width.word.align last)
    CpuM.charge 1
    modify (transfer.writeBackLoaded base)
    if transfer.mark then StepM.restorePsr
    CpuM.branchTo target
  else
    CpuM.charge 1
    modify (transfer.writeBackLoaded base)
    return .next

/-- Performs a block store. -/
def executeStore (transfer : BlockTransfer) (base : Word) : StepM Flow := do
  storeWords (transfer.storedValue (← get)) transfer.registers (transfer.start base)
  if transfer.writeBack then modify (·.write transfer.base (transfer.final base))
  return .next

/-- Performs a block transfer. -/
def execute (transfer : BlockTransfer) : StepM Flow := do
  let base := (← get).read transfer.base
  if transfer.load then transfer.executeLoad base else transfer.executeStore base

end BlockTransfer

end Armv4t

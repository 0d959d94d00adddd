import Armv4t.Exec.Basic

/-!
# Single transfers

Loads and stores of one register, for both instruction sets.  Memory accesses are aligned to their
size; a misaligned load of a word or an unsigned halfword delivers the aligned value rotated, so
that the addressed byte comes lowest, and a misaligned signed halfword is the signed byte at its
address.
-/

namespace Armv4t

/-- How a load fills a register. -/
inductive LoadFormat where
  | byte
  | halfword
  | word
  | signedByte
  | signedHalfword
deriving DecidableEq, Repr

namespace LoadFormat

/-- Loads a register value from an address. -/
def load (format : LoadFormat) (address : Word) : StepM Word := do
  match format with
  | byte => return (← StepM.read .byte address).setWidth 32
  | halfword =>
    let value ← StepM.read .halfword (Width.halfword.align address)
    return (value.setWidth 32).rotateRight (Width.halfword.rotation address)
  | word =>
    let value ← StepM.read .word (Width.word.align address)
    return value.rotateRight (Width.word.rotation address)
  | signedByte => return (← StepM.read .byte address).signExtend 32
  | signedHalfword =>
    if address.getLsbD 0 then return (← StepM.read .byte address).signExtend 32
    else return (← StepM.read .halfword address).signExtend 32

/-- The suffix of a load in the assembly language. -/
def suffix : LoadFormat → String
  | byte => "b"
  | halfword => "h"
  | word => ""
  | signedByte => "sb"
  | signedHalfword => "sh"

end LoadFormat

namespace Width

/-- Stores the low bits of a register value at an address. -/
def store (width : Width) (address value : Word) : StepM Unit :=
  StepM.write width (width.align address) (value.setWidth width.bits)

/-- The suffix of a store in the assembly language. -/
def suffix : Width → String
  | byte => "b"
  | halfword => "h"
  | word => ""

end Width

/-- The direction and the size of a transfer. -/
inductive Access where
  | load (format : LoadFormat)
  | store (width : Width)
deriving DecidableEq, Repr

namespace Access

/-- The mnemonic of a transfer. -/
def text : Access → String
  | load format => "ldr" ++ format.suffix
  | store width => "str" ++ width.suffix

/-- A word transfer in the direction of a load bit. -/
def ofWord (load : Bool) : Access :=
  if load then .load .word else .store .word

/-- An unsigned byte transfer in the direction of a load bit. -/
def ofByte (load : Bool) : Access :=
  if load then .load .byte else .store .byte

/-- An unsigned halfword transfer in the direction of a load bit. -/
def ofHalfword (load : Bool) : Access :=
  if load then .load .halfword else .store .halfword

end Access

/-- When the offset is applied to the base. -/
inductive Indexing where
  /-- Before the access; the base keeps the sum only with write-back. -/
  | pre (writeBack : Bool)
  /-- After the access; the base always keeps the sum.  The mark asks for the memory protection of
  User mode, which a processor without it ignores. -/
  | post (unprivileged : Bool)
deriving DecidableEq, Repr

/-- Whether the base keeps the sum of base and offset. -/
def Indexing.writesBack : Indexing → Bool
  | pre writeBack => writeBack
  | post _ => true

/-- The offset of a transfer. -/
inductive Offset where
  | immediate (value : BitVec 12)
  | register (source : Register) (kind : ShiftKind) (amount : BitVec 5)
deriving DecidableEq, Repr

/-- The value of an offset. -/
def Offset.value (offset : Offset) (cpu : Cpu) : Word :=
  match offset with
  | immediate value => value.setWidth 32
  | register source kind amount =>
    (kind.byImmediate (cpu.read source) amount cpu.cpsr.flags.carry).value

/-- A load or store of one register. -/
structure SingleTransfer where
  access : Access
  /-- The register loaded or stored. -/
  data : Register
  base : Register
  offset : Offset
  /-- Whether the offset is added to the base or subtracted from it. -/
  up : Bool
  indexing : Indexing
deriving DecidableEq, Repr

namespace SingleTransfer

/-- A transfer that writes back to the program counter has no defined effect. -/
def refusal? (transfer : SingleTransfer) : Option Unpredictable :=
  if transfer.indexing.writesBack ∧ transfer.base = .pc then some .writeBackToPc else none

/-- The base with the offset applied. -/
def indexed (transfer : SingleTransfer) (base offset : Word) : Word :=
  if transfer.up then base + offset else base - offset

/-- The address of the access. -/
def address (transfer : SingleTransfer) (base offset : Word) : Word :=
  match transfer.indexing with
  | .pre _ => transfer.indexed base offset
  | .post _ => base

/-- Performs a transfer from given values of base and offset.  A loaded value wins over the base
written back to the same register, and a word loaded into the program counter selects the
instruction set. -/
def executeAt (transfer : SingleTransfer) (base offset : Word) : StepM Flow := do
  let address := transfer.address base offset
  match transfer.access with
  | .load format =>
    let value ← format.load address
    CpuM.charge 1
    if transfer.indexing.writesBack ∧ transfer.base ≠ transfer.data then
      modify (·.write transfer.base (transfer.indexed base offset))
    if transfer.data = .pc ∧ format = .word then
      CpuM.branchExchange value
    else
      CpuM.writeOrBranch transfer.data value
  | .store width =>
    width.store address ((← get).readLate transfer.data)
    if transfer.indexing.writesBack then
      modify (·.write transfer.base (transfer.indexed base offset))
    return .next

/-- Performs a transfer from the register values of the processor. -/
def execute (transfer : SingleTransfer) : StepM Flow := do
  let cpu ← get
  transfer.executeAt (cpu.read transfer.base) (transfer.offset.value cpu)

end SingleTransfer

end Armv4t

import Armv4t.Word

/-!
# Kinds of ARM instructions

Bits 27 to 20 and 7 to 4 of an opcode decide what kind of instruction it is.  Together they form the
index of the opcode, and `ArmKind.ofIndex` classifies all 4096 indices.
-/

namespace Armv4t

/-- The kinds of ARM instructions. -/
inductive ArmKind where
  | dataProcessing
  | readStatus
  | writeStatus
  | multiply
  | multiplyLong
  | swap
  | branchExchange
  | halfwordTransfer
  | singleTransfer
  | blockTransfer
  | branch
  | softwareInterrupt
  | undefined
deriving DecidableEq, Repr

namespace ArmKind

/-- The kind of an index with bits 27 to 25 clear, from bits 27 to 20 and bits 7 to 4 of the opcode.
Multiplications, swaps and halfword transfers have bits 7 and 4 set; the test operations without the
flag-setting bit hold the status transfers and the branch with exchange. -/
def ofRegisterSpace (high : BitVec 8) (low : BitVec 4) : ArmKind :=
  if low = 0b1001 then
    if high < 0x04 then multiply
    else if 0x08 ≤ high ∧ high < 0x10 then multiplyLong
    else if high = 0x10 ∨ high = 0x14 then swap
    else undefined
  else if low.getLsbD 3 ∧ low.getLsbD 0 then
    if low.getLsbD 2 ∧ ¬high.getLsbD 0 then undefined else halfwordTransfer
  else if high.getLsbD 4 ∧ ¬high.getLsbD 3 ∧ ¬high.getLsbD 0 then
    if low = 0 then (if high.getLsbD 1 then writeStatus else readStatus)
    else if high = 0x12 ∧ low = 1 then branchExchange
    else undefined
  else dataProcessing

/-- The kind of an index. -/
def ofIndex (index : BitVec 12) : ArmKind :=
  let high := index.extractLsb' 4 8
  let low := index.extractLsb' 0 4
  match (high.extractLsb' 5 3).toNat with
  | 0 => ofRegisterSpace high low
  | 1 =>
    if high.getLsbD 4 ∧ ¬high.getLsbD 3 ∧ ¬high.getLsbD 0 then
      (if high.getLsbD 1 then writeStatus else undefined)
    else dataProcessing
  | 2 => singleTransfer
  | 3 => if low.getLsbD 0 then undefined else singleTransfer
  | 4 => blockTransfer
  | 5 => branch
  | 6 => undefined
  | _ => if high.getLsbD 4 then softwareInterrupt else undefined

/-- The index of an opcode. -/
def index (opcode : Word) : BitVec 12 :=
  opcode.extractLsb' 20 8 ++ opcode.extractLsb' 4 4

/-- The kind of an opcode. -/
def ofOpcode (opcode : Word) : ArmKind :=
  ofIndex (index opcode)

/-- What the kind is called. -/
def text : ArmKind → String
  | dataProcessing => "data processing"
  | readStatus => "mrs"
  | writeStatus => "msr"
  | multiply => "mul"
  | multiplyLong => "mull"
  | swap => "swp"
  | branchExchange => "bx"
  | halfwordTransfer => "halfword transfer"
  | singleTransfer => "single transfer"
  | blockTransfer => "block transfer"
  | branch => "b"
  | softwareInterrupt => "swi"
  | undefined => "undefined"

end ArmKind

end Armv4t

import Armv4t.Bus.Program
import Armv4t.Numeral
import Std.Data.HashMap

/-!
# Memory

A memory of bytes behind a bus.  Every address holds a byte, zero until something is stored there;
accesses over the bus must lie within one of the memory's regions, and writes within one that is not
read only.  Wider values are little-endian.
-/

namespace Armv4t

/-- A range of addresses that the bus can reach. -/
structure Region where
  base : Nat
  size : Nat
  readOnly : Bool := false
deriving DecidableEq, Repr

/-- Whether an access of some bytes lies within the region. -/
def Region.contains (region : Region) (address : Word) (width : Width) : Bool :=
  region.base ≤ address.toNat ∧ address.toNat + width.bytes ≤ region.base + region.size

/-- Bytes and the regions in which the bus reaches them. -/
structure Memory where
  bytes : Std.HashMap Word Byte := {}
  regions : List Region

namespace Memory

/-- The byte at an address. -/
def byte (memory : Memory) (address : Word) : Byte :=
  memory.bytes.getD address 0

/-- Stores a byte. -/
def storeByte (memory : Memory) (address : Word) (value : Byte) : Memory :=
  { memory with bytes := memory.bytes.insert address value }

/-- Stores bytes at consecutive addresses. -/
def storeBytes (memory : Memory) (address : Word) : List Byte → Memory
  | [] => memory
  | value :: rest => (memory.storeByte address value).storeBytes (address + 1) rest

/-- A stored byte is read back, and every other byte is as it was. -/
theorem byte_storeByte (memory : Memory) (address other : Word) (value : Byte) :
    (memory.storeByte address value).byte other =
      if address = other then value else memory.byte other := by
  simp [byte, storeByte, Std.HashMap.getD_insert]

@[simp] theorem regions_storeBytes (memory : Memory) (address : Word) (bytes : List Byte) :
    (memory.storeBytes address bytes).regions = memory.regions := by
  induction bytes generalizing memory address with
  | nil => rfl
  | cons value rest ih => rw [storeBytes, ih]; rfl

/-- The bytes of a value, lowest first. -/
def littleEndian : (width : Width) → BitVec width.bits → List Byte
  | .byte, value => [value]
  | .halfword, value => [value.extractLsb' 0 8, value.extractLsb' 8 8]
  | .word, value =>
    [value.extractLsb' 0 8, value.extractLsb' 8 8, value.extractLsb' 16 8, value.extractLsb' 24 8]

/-- Stores a value. -/
def store (memory : Memory) (width : Width) (address : Word) (value : BitVec width.bits) : Memory :=
  memory.storeBytes address (littleEndian width value)

/-- The value at an address. -/
def load (memory : Memory) (width : Width) (address : Word) : BitVec width.bits :=
  match width with
  | .byte => memory.byte address
  | .halfword => (memory.byte (address + 1) ++ memory.byte address : BitVec (8 + 8))
  | .word =>
    (memory.byte (address + 3) ++ memory.byte (address + 2) ++ memory.byte (address + 1) ++
      memory.byte address : BitVec (8 + 8 + 8 + 8))

/-- The words at consecutive addresses. -/
def loadWords (memory : Memory) (address : Word) : Nat → List Word
  | 0 => []
  | count + 1 => memory.load .word address :: memory.loadWords (address + 4) count

/-- The region that an access lies in; the first of several. -/
def region? (memory : Memory) (address : Word) (width : Width) : Option Region :=
  memory.regions.find? (·.contains address width)

/-- An access outside all regions. -/
def outOfRange (address : Word) (width : Width) : BusFault :=
  ⟨"access of " ++ toString width.bytes ++ " bytes at " ++ Numeral.address address.toNat ++
    " is out of range"⟩

/-- A write to a region that is read only. -/
def notAllowed (address : Word) (width : Width) : BusFault :=
  ⟨"write of " ++ toString width.bytes ++ " bytes at " ++ Numeral.address address.toNat ++
    " is not allowed"⟩

/-- Why a read fails, if it does. -/
def readFault? (memory : Memory) (width : Width) (address : Word) : Option BusFault :=
  if (memory.region? address width).isSome then none else some (outOfRange address width)

/-- Why a write fails, if it does. -/
def writeFault? (memory : Memory) (width : Width) (address : Word) : Option BusFault :=
  match memory.region? address width with
  | none => some (outOfRange address width)
  | some region => if region.readOnly then some (notAllowed address width) else none

/-- The bus over a memory.  A write that fails stores nothing. -/
def bus : Bus Memory where
  answer
    | .read width address, memory =>
      match memory.readFault? width address with
      | none => (.ok (memory.load width address), memory)
      | some fault => (.error fault, memory)
    | .write width address value, memory =>
      match memory.writeFault? width address with
      | none => (.ok (), memory.store width address value)
      | some fault => (.error fault, memory)
    | .charge _, memory => ((), memory)
    | .branch .., memory => ((), memory)

end Memory

end Armv4t

import Armv4t.Exec.Basic

/-!
# Status transfers

Reading a status register into a general one, and writing the flag and control fields of a status
register.  Writing never changes the instruction set, and in User mode changes the flags only.
-/

namespace Armv4t

/-- Reads a status register.  In a mode without saved status the current status stands in for it. -/
def readStatus (saved : Bool) (destination : Register) : CpuM Flow := do
  let cpu ← get
  if saved then
    match cpu.spsr? with
    | some word => CpuM.writeRegister destination word
    | none =>
      CpuM.note (.noSavedStatus cpu.mode)
      CpuM.writeRegister destination cpu.cpsr.toWord
  else
    CpuM.writeRegister destination cpu.cpsr.toWord
  return .next

/-- The value written to a status register. -/
inductive StatusSource where
  /-- An eight-bit immediate, rotated right by twice the amount. -/
  | immediate (value : BitVec 8) (rotation : BitVec 4)
  | register (source : Register)
deriving DecidableEq, Repr

/-- The value of a source. -/
def StatusSource.value (source : StatusSource) (cpu : Cpu) : Word :=
  match source with
  | immediate value rotation => (rotatedImmediate value rotation).value
  | register source => cpu.read source

/-- A write of chosen fields of a status register. -/
structure StatusWrite where
  /-- Whether the saved status is written rather than the current one. -/
  saved : Bool
  /-- The chosen fields: flags, status, extension and control from the highest bit down. -/
  fields : BitVec 4
  source : StatusSource
deriving DecidableEq, Repr

namespace StatusWrite

/-- The bits of the flag field. -/
def flagMask : Word := 0xFF000000

/-- The bits of the control field. -/
def controlMask : Word := 0x000000FF

/-- The bit that holds the instruction set. -/
def instructionSetMask : Word := 0x00000020

/-- The bits of the chosen fields; the two middle fields hold nothing. -/
def mask (write : StatusWrite) : Word :=
  (if write.fields.getLsbD 3 then flagMask else 0) |||
    (if write.fields.getLsbD 0 then controlMask else 0)

/-- The bits of the current status that the write may change in a mode. -/
def currentMask (write : StatusWrite) (mode : Mode) : Word :=
  (if mode = .user then write.mask &&& flagMask else write.mask) &&& ~~~instructionSetMask

/-- The bits of `new` under the mask and those of `old` elsewhere. -/
def merge (mask new old : Word) : Word :=
  (new &&& mask) ||| (old &&& ~~~mask)

/-- Performs a status write. -/
def execute (write : StatusWrite) : StepM Flow := do
  let cpu ← get
  let value := write.source.value cpu
  if write.saved then
    match cpu.spsr? with
    | some word => set (cpu.withSpsr (merge write.mask value word))
    | none => CpuM.note (.savedStatusIgnored cpu.mode)
  else
    StepM.installPsrWord (merge (write.currentMask cpu.mode) value cpu.cpsr.toWord)
  return .next

end StatusWrite

end Armv4t

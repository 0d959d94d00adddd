import Armv4t.Cpu.Basic
import Armv4t.Fault
import Armv4t.Value

/-!
# Snapshots

The state of a processor is 45 words: the sixteen registers of the current mode, the stored copies
of R8 to R12 outside and inside FIQ mode, the stored stack pointers and link registers, the saved
status of each bank, and the status.  A snapshot writes them as a structured value, and reading one
accepts any words whose status names a mode.
-/

namespace Armv4t

namespace Cpu

/-- The registers of the current mode in ascending order. -/
def registers (cpu : Cpu) : List Word :=
  Register.all.map cpu.read

/-- The 45 words of a processor's state. -/
def words (cpu : Cpu) : List Word :=
  cpu.registers ++ cpu.commonHigh.toList ++ cpu.fiqHigh.toList ++
    cpu.bankedStacks.toList.flatMap (fun pair => [pair.sp, pair.lr]) ++ cpu.spsrs.toList ++
    [cpu.cpsr.toWord]

end Cpu

/-- Why a snapshot is refused. -/
inductive SnapshotError where
  /-- A field is missing or is not of its form. -/
  | malformed
  /-- All fields are well formed, but the status names no mode. -/
  | invalidMode (field : BitVec 5)
deriving DecidableEq, Repr

namespace Snapshot

/-- The fields of a snapshot. -/
def fieldNames : List String :=
  ["registers", "r8_r12", "r8_r12_fiq", "r13_r14_banked", "spsr_banked", "cpsr"]

/-- The written form of a processor's state. -/
def toValue (cpu : Cpu) : Value :=
  .object (fieldNames.zip
    [.ofWords cpu.registers, .ofWords cpu.commonHigh.toList, .ofWords cpu.fiqHigh.toList,
      .array (cpu.bankedStacks.toList.map fun pair => .ofWords [pair.sp, pair.lr]),
      .ofWords cpu.spsrs.toList, .ofWord cpu.cpsr.toWord])

/-- The words of a snapshot before its status is looked at. -/
structure Parts where
  registers : Vector Word 16
  commonHigh : Vector Word 5
  fiqHigh : Vector Word 5
  bankedStacks : Banked StackPair
  spsrs : Banked Word
  cpsr : Word
deriving DecidableEq, Repr

/-- Reads a stack pointer and a link register. -/
def stackPair? (value : Value) : Option StackPair := do
  match ← value.list? Value.word? with
  | [sp, lr] => some ⟨sp, lr⟩
  | _ => none

/-- Reads one value per bank. -/
def banked? {α : Type} (read : Value → Option α) (value : Value) : Option (Banked α) := do
  Banked.ofList? (← value.list? read)

/-- Reads the words of a snapshot, whose fields are all required. -/
def Parts.ofValue? (value : Value) : Option Parts :=
  match value.fields? fieldNames with
  | some [some registers, some commonHigh, some fiqHigh, some pairs, some spsrs, some cpsr] => do
    return {
      registers := ← registers.vector? Value.word? 16
      commonHigh := ← commonHigh.vector? Value.word? 5
      fiqHigh := ← fiqHigh.vector? Value.word? 5
      bankedStacks := ← banked? stackPair? pairs
      spsrs := ← banked? Value.word? spsrs
      cpsr := ← cpsr.word? }
  | _ => none

/-- The value of a register in the current mode. -/
def Parts.read (parts : Parts) (register : Register) : Word :=
  parts.registers.get register.index

/-- The processor with the given words and status. -/
def Parts.cpu (parts : Parts) (psr : Psr) : Cpu where
  low := .ofFn fun position => parts.read (.low position)
  high := .ofFn fun position => parts.read (.high position)
  stack := ⟨parts.read .sp, parts.read .lr⟩
  pc := parts.read .pc
  commonHigh := parts.commonHigh
  fiqHigh := parts.fiqHigh
  bankedStacks := parts.bankedStacks
  spsrs := parts.spsrs
  cpsr := psr

/-- Reads a snapshot.  The mode is looked at last. -/
def ofValue (value : Value) : Except SnapshotError Cpu :=
  match Parts.ofValue? value with
  | none => .error .malformed
  | some parts =>
    match Psr.ofWord? parts.cpsr with
    | none => .error (.invalidMode (Psr.modeField parts.cpsr))
    | some psr => .ok (parts.cpu psr)

/-- Whether the snapshot of a processor reads back as the same state. -/
def readsBack (cpu : Cpu) : Bool :=
  match ofValue (toValue cpu) with
  | .ok copy => copy.words == cpu.words
  | .error _ => false

/-- The position of a register that a patch names by `r` and its number. -/
def registerNumber? (name : String) : Option (Fin 16) :=
  (List.finRange 16).find? fun number => "r" ++ toString number.val == name

/-- Puts a value under a name into the members of a record. -/
def putMember (name : String) (value : Value) :
    List (String × Value) → List (String × Value)
  | [] => [(name, value)]
  | member :: rest =>
    if member.1 = name then (name, value) :: rest else member :: putMember name value rest

/-- Puts a register value into the members of a snapshot. -/
def putRegister (number : Fin 16) (value : Value) (members : List (String × Value)) :
    List (String × Value) :=
  match List.lookup "registers" members with
  | some (.array items) => putMember "registers" (.array (items.set number value)) members
  | _ => members

/-- Applies one member of a patch to the members of a snapshot. -/
def applyMember (members : List (String × Value)) (change : String × Value) :
    List (String × Value) :=
  match registerNumber? change.1 with
  | some number => putRegister number change.2 members
  | none => putMember change.1 change.2 members

/-- The processor after a patch: its snapshot with single registers or whole fields replaced, read
back. -/
def patch (cpu : Cpu) (changes : List (String × Value)) : Except SnapshotError Cpu :=
  match toValue cpu with
  | .object members => ofValue (.object (changes.foldl applyMember members))
  | value => ofValue value

end Snapshot

/-- The wording of a refusal, where there is one. -/
def SnapshotError.message? : SnapshotError → Option String
  | malformed => none
  | invalidMode field => some (Fault.invalidMode field).message

end Armv4t

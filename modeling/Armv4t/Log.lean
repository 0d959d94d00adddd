import Armv4t.Condition
import Armv4t.Exception

/-!
# Log records

What the processor reports of its own accord while it runs, as causes; `Armv4t.Disassembly` words
them.  A record has no effect on the processor or its bus.
-/

namespace Armv4t

/-- How urgent a log record is, most urgent first. -/
inductive LogLevel where
  | warn
  | debug
  | trace
deriving DecidableEq, Repr

/-- An occurrence worth reporting. -/
inductive LogRecord where
  /-- A plain register write gave the program counter an address off the instruction boundary. -/
  | unalignedPc (set : InstructionSet) (value : Word)
  /-- A status restore was due in a mode without saved status. -/
  | nothingToRestore (mode : Mode)
  /-- The saved status was read in a mode without one. -/
  | noSavedStatus (mode : Mode)
  /-- An instruction was to write the saved status in a mode without one. -/
  | savedStatusIgnored (mode : Mode)
  /-- A value was given to the saved status in a mode without one. -/
  | savedStatusDropped (mode : Mode) (value : Word)
  /-- The mode changed. -/
  | modeSwitch (old new : Mode)
  /-- An exception was entered. -/
  | exception (kind : Exception) (address : Word)
  /-- An ARM instruction is about to be executed. -/
  | executesArm (address opcode : Word)
  /-- A Thumb instruction is about to be executed. -/
  | executesThumb (address : Word) (opcode : Halfword)
  /-- An ARM instruction is passed over because its condition does not hold. -/
  | skips (address opcode : Word) (condition : Condition)
deriving DecidableEq, Repr

/-- How urgent a record is. -/
def LogRecord.level : LogRecord → LogLevel
  | unalignedPc .. | nothingToRestore .. | noSavedStatus .. | savedStatusIgnored ..
  | savedStatusDropped .. => .warn
  | modeSwitch .. | exception .. => .debug
  | executesArm .. | executesThumb .. | skips .. => .trace

namespace LogLevel

/-- The position of a level, counted from the most urgent. -/
def rank : LogLevel → Nat
  | warn => 0
  | debug => 1
  | trace => 2

/-- Whether records of this level are kept when the least urgent level asked for is `limit`. -/
def isWithin (level limit : LogLevel) : Bool :=
  level.rank ≤ limit.rank

/-- The name of the level. -/
def name : LogLevel → String
  | warn => "warn"
  | debug => "debug"
  | trace => "trace"

/-- The level of a given name. -/
def ofName? (text : String) : Option LogLevel :=
  [warn, debug, trace].find? (·.name == text)

end LogLevel

end Armv4t

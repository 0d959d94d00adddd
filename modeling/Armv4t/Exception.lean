import Armv4t.Mode

/-!
# Exceptions and interrupt lines

The seven exceptions with the mode that handles each, the address of its handler and the offset of
its return address.
-/

namespace Armv4t

/-- The exceptions the processor can enter. -/
inductive Exception where
  | reset
  | undefined
  | softwareInterrupt
  | prefetchAbort
  | dataAbort
  | interruptRequest
  | fastInterruptRequest
deriving DecidableEq, Repr

namespace Exception

/-- All exceptions in the order of their handlers. -/
def all : List Exception :=
  [reset, undefined, softwareInterrupt, prefetchAbort, dataAbort, interruptRequest,
    fastInterruptRequest]

/-- The mode in which the handler runs. -/
def mode : Exception → Mode
  | reset => .supervisor
  | undefined => .undefined
  | softwareInterrupt => .supervisor
  | prefetchAbort => .abort
  | dataAbort => .abort
  | interruptRequest => .irq
  | fastInterruptRequest => .fiq

/-- The address of the handler. -/
def vector : Exception → Word
  | reset => 0x00
  | undefined => 0x04
  | softwareInterrupt => 0x08
  | prefetchAbort => 0x0C
  | dataAbort => 0x10
  | interruptRequest => 0x18
  | fastInterruptRequest => 0x1C

/-- How far the link register points beyond the instruction at which the exception is taken in the
given instruction set. -/
def returnOffset (exception : Exception) (set : InstructionSet) : Word :=
  match exception with
  | reset => 0
  | undefined | softwareInterrupt => set.size
  | prefetchAbort | interruptRequest | fastInterruptRequest => 4
  | dataAbort => 8

/-- Whether entry also holds back fast interrupts. -/
def disablesFiq : Exception → Bool
  | reset | fastInterruptRequest => true
  | _ => false

/-- The name of the exception in messages. -/
def name : Exception → String
  | reset => "Reset"
  | undefined => "Undefined"
  | softwareInterrupt => "SoftwareInterrupt"
  | prefetchAbort => "PrefetchAbort"
  | dataAbort => "DataAbort"
  | interruptRequest => "InterruptRequest"
  | fastInterruptRequest => "FastInterruptRequest"

/-- The exception of a given name. -/
def ofName? (text : String) : Option Exception :=
  all.find? (·.name == text)

end Exception

/-- The two interrupt lines of the processor. -/
inductive InterruptLine where
  | irq
  | fiq
deriving DecidableEq, Repr

namespace InterruptLine

/-- The exception that a request on the line leads to. -/
def exception : InterruptLine → Exception
  | irq => .interruptRequest
  | fiq => .fastInterruptRequest

/-- The line of a given name. -/
def ofName? : String → Option InterruptLine
  | "Irq" => some irq
  | "Fiq" => some fiq
  | _ => none

end InterruptLine

end Armv4t

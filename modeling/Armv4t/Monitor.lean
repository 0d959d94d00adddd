import Armv4t.Checksum
import Armv4t.Config
import Armv4t.Cpu.Status
import Armv4t.Disassembly
import Armv4t.Memory
import Armv4t.Step

/-!
# The machine monitor

A processor attached to a memory, driven by commands: execute opcodes, step and run, raise
exceptions, and look at registers and memory.  Each command may first patch the processor's state.
-/

namespace Armv4t

/-- A processor attached to a memory. -/
structure Machine where
  cpu : Cpu
  memory : Memory

/-- What the monitor can be told to do. -/
inductive Command where
  | executeArm (opcode : Word)
  | executeThumb (opcode : Halfword)
  | step
  /-- Step up to `count` times, but not beyond the address `stop`. -/
  | run (count : Nat) (stop : Option Word)
  | raise (exception : Exception)
  | interrupt (line : InterruptLine)
  | reset
  | disassemble
  | banked (mode : Mode)
  | status
  | checksum
  | dump
  | snapshot
  /-- Check that the processor's snapshot reads back as the same state. -/
  | verifySnapshot
  /-- Do nothing beyond the patch. -/
  | nothing
  | poke (address : Word) (bytes : List Byte)
  | peek (address : Word) (count : Nat)
deriving DecidableEq, Repr

/-- The account of a run. -/
structure RunReport where
  /-- The fetch address before each attempted step. -/
  path : List Word
  /-- The fault at which the run ended, if it ended at one. -/
  stopped : Option Fault
  reads : Nat
  writes : Nat
  branches : Nat
deriving DecidableEq, Repr

/-- What a command yields beside its effects. -/
inductive Reply where
  | nothing
  | verdict (holds : Bool)
  | text (text : String)
  | words (words : List Word)
  | status (status : Status)
  | snapshot (cpu : Cpu)
  | run (report : RunReport)
deriving DecidableEq, Repr

/-- Why a command has failed. -/
inductive CommandError where
  | fault (fault : Fault)
  | snapshot (error : SnapshotError)
deriving DecidableEq, Repr

/-- What a command leaves: the machine, its reply or failure, the cycles that passed, the requests
the bus has seen and the log records. -/
structure Outcome where
  machine : Machine
  reply : Except CommandError Reply
  cycles : Nat
  events : List BusEvent
  log : List LogRecord

/-- The cycles that a request lets pass. -/
def BusRequest.cycles : BusRequest → Nat
  | charge cycles => cycles
  | _ => 0

/-- The cycles that pass in a list of events. -/
def BusEvent.totalCycles (events : List BusEvent) : Nat :=
  events.foldr (fun event rest => event.request.cycles + rest) 0

namespace Machine

/-- Runs a computation that may stop with a fault. -/
def attempt {α : Type} (machine : Machine) (action : StepM α) :
    BusRun Memory (Except Fault α × Cpu) :=
  action.runOn Memory.bus machine.cpu machine.memory

/-- Performs a computation as a command. -/
def perform {α : Type} (machine : Machine) (action : StepM α) (reply : α → Reply) : Outcome :=
  let ran := machine.attempt action
  { machine := ⟨ran.value.2, ran.state⟩
    reply := match ran.value.1 with
      | .ok value => .ok (reply value)
      | .error fault => .error (.fault fault)
    cycles := BusEvent.totalCycles ran.events
    events := ran.events
    log := ran.log }

/-- Answers without any effect. -/
def answer (machine : Machine) (reply : Reply) : Outcome where
  machine := machine
  reply := .ok reply
  cycles := 0
  events := []
  log := []

/-- Counts the reads, writes and branches in a list of events. -/
def countEvents (report : RunReport) (events : List BusEvent) : RunReport :=
  { report with
    reads := report.reads + events.countP fun event => event.request matches .read ..
    writes := report.writes + events.countP fun event => event.request matches .write ..
    branches := report.branches + events.countP fun event => event.request matches .branch .. }

/-- What is left of a run that ends before its next step. -/
def endRun (machine : Machine) : Machine × RunReport × Nat × List LogRecord :=
  (machine, ⟨[], none, 0, 0, 0⟩, 0, [])

/-- Steps up to `count` times, ending before a step at the address `stop` and at the first fault. -/
def runSteps (machine : Machine) (stop : Option Word) :
    Nat → Machine × RunReport × Nat × List LogRecord
  | 0 => machine.endRun
  | count + 1 =>
    let address := machine.cpu.fetchAddress
    if stop = some address then machine.endRun
    else
      let ran := machine.attempt Armv4t.step
      let machine : Machine := ⟨ran.value.2, ran.state⟩
      let (machine, report, cycles, log) := match ran.value.1 with
        | .ok () => machine.runSteps stop count
        | .error fault => (machine, ⟨[], some fault, 0, 0, 0⟩, 0, [])
      (machine, countEvents { report with path := address :: report.path } ran.events,
        BusEvent.totalCycles ran.events + cycles, ran.log ++ log)

/-- The most steps of one run. -/
def runLimit : Nat := 5000

/-- Carries out a command. -/
def execute (machine : Machine) : Command → Outcome
  | .executeArm opcode => machine.perform (executeArm opcode) fun _ => .nothing
  | .executeThumb opcode => machine.perform (executeThumb opcode) fun _ => .nothing
  | .step => machine.perform step fun _ => .nothing
  | .run count stop =>
    let (machine, report, cycles, log) := machine.runSteps stop (min count runLimit)
    { machine := machine, reply := .ok (.run report), cycles := cycles, events := [], log := log }
  | .raise exception => machine.perform (CpuM.raise exception) fun _ => .nothing
  | .interrupt line => machine.perform (CpuM.requestInterrupt line) .verdict
  | .reset => { machine with cpu := .reset }.answer .nothing
  | .disassemble => machine.perform disassembleNext .text
  | .banked mode => machine.answer (.words (Register.all.map (machine.cpu.readIn mode)))
  | .status => machine.answer (.status machine.cpu.status)
  | .checksum => machine.answer (.text (Checksum.text machine.cpu.checksum))
  | .dump => machine.answer (.text machine.cpu.dump)
  | .snapshot => machine.answer (.snapshot machine.cpu)
  | .verifySnapshot => machine.answer (.verdict (Snapshot.readsBack machine.cpu))
  | .nothing => machine.answer .nothing
  | .poke address bytes =>
    { machine with memory := machine.memory.storeBytes address bytes }.answer .nothing
  | .peek address count => machine.answer (.words (machine.memory.loadWords address count))

/-- Patches the processor and then carries out a command.  If the patch fails, nothing happens. -/
def executePatched (machine : Machine) (patch : Option (List (String × Value)))
    (command : Command) : Outcome :=
  match patch with
  | none => machine.execute command
  | some changes =>
    match Snapshot.patch machine.cpu changes with
    | .ok cpu => { machine with cpu := cpu }.execute command
    | .error error => { machine.answer .nothing with reply := .error (.snapshot error) }

end Machine

end Armv4t

import Armv4t.Proofs.StaleStorage
import Armv4t.Proofs.Trapping.Text

/-!
# No run traps

Executing opcodes, fetching them, entering exceptions, requesting interrupts and resetting,
performed on the cells of a host that traps, from the cells that a configuration or an accepted
snapshot gives.  Every call follows the call on the processor, and so does every sequence of calls,
by induction on the sequence.  As the processor has no arithmetic that traps, **no run traps**
(`completes_performOn`).
-/

namespace Armv4t.Trapping

open HostM

/-! ### Opcodes -/

/-- Moves the program counter past an instruction of a given size, unless it has branched. -/
def proceed (size : Word) (flow : Flow) : HostM Unit :=
  match flow with
  | .next => update fun cells => do
    let pc ← lookup cells.registers 15
    return { cells with registers := ← replace cells.registers 15 (pc + size) }
  | .jump => return ()

/-- Executes one ARM opcode as the instruction at the fetch address.  Its text is made for the log
before it is performed. -/
def executeArm (opcode : Word) : HostM Unit := do
  let condition := conditionOf (← check (shr opcode 28))
  charge 1
  let holds := condition.holds (← look Cells.flags)
  let address ← look Cells.fetchAddress
  if holds then
    let _ ← check (armText opcode address)
    note (.executesArm address opcode)
    proceed 4 (← armDispatch opcode)
  else
    note (.skips address opcode condition)
    proceed 4 .next

/-- Executes one Thumb opcode as the instruction at the fetch address. -/
def executeThumb (opcode : Halfword) : HostM Unit := do
  charge 1
  let address ← look Cells.fetchAddress
  let _ ← check (thumbText opcode address)
  note (.executesThumb address opcode)
  proceed 2 (← thumbDispatch opcode)

/-- Fetches the next instruction over the bus and executes it. -/
def step : HostM Unit := do
  let address ← look Cells.fetchAddress
  match ← look Cells.instructionSet with
  | .arm => executeArm (← read .word address)
  | .thumb => executeThumb (← read .halfword address)

/-! ### Starting -/

/-- The stored stack pointers and link registers with the stack pointer of the bank of a mode
replaced. -/
def withStackPointer (stored : Vector (Vector Word 2) 6) (mode : Mode) (pointer : Word) :
    Checked (Vector (Vector Word 2) 6) := do
  let pair ← lookup stored (bankIndex mode)
  replace stored (bankIndex mode) (← replace pair 0 pointer)

/-- The stored stack pointers of a processor that powers up. -/
def startStacks (pointers : StackPointers) : Checked (Vector (Vector Word 2) 6) := do
  let stored := .replicate 6 (.replicate 2 0)
  let stored ← withStackPointer stored .user pointers.user
  let stored ← withStackPointer stored .fiq pointers.fiq
  let stored ← withStackPointer stored .irq pointers.irq
  let stored ← withStackPointer stored .supervisor pointers.supervisor
  let stored ← withStackPointer stored .abort pointers.abort
  withStackPointer stored .undefined pointers.undefined

/-- The cells of a processor that a configuration powers up. -/
def configured (config : Config) : Checked Cells := do
  let cpsr ← startWord config
  let bankedStacks ← startStacks config.stackPointers
  let pointer ← lookup (← lookup bankedStacks (bankIndex config.mode)) 0
  let cells : Cells := {
    registers := ← replace (.replicate 16 0) 13 pointer
    commonHigh := .replicate 5 0
    fiqHigh := .replicate 5 0
    bankedStacks
    spsrs := .replicate 6 0
    cpsr }
  cells.write .pc (config.entryPoint + (← cells.lookahead))

/-- The cells of a snapshot, which is refused if its status names no mode. -/
def restored (parts : Snapshot.Parts) : Checked (Except SnapshotError Cells) := do
  match ← modeOf? parts.cpsr with
  | none => return .error (.invalidMode ((← getBits parts.cpsr 0 4).setWidth 5))
  | some _ => return .ok {
      registers := parts.registers
      commonHigh := parts.commonHigh
      fiqHigh := parts.fiqHigh
      bankedStacks := ofBanked (parts.bankedStacks.map ofPair)
      spsrs := ofBanked parts.spsrs
      cpsr := parts.cpsr }

/-- Where the state of a processor comes from. -/
inductive Origin where
  | config (config : Config)
  | snapshot (value : Value)

/-- The processor of an origin, unless the origin is a snapshot that is refused. -/
def Origin.cpu : Origin → Except SnapshotError Cpu
  | .config settings => .ok (.ofConfig settings)
  | .snapshot value => Snapshot.ofValue value

/-- The cells of an origin, unless the origin is a snapshot that is refused. -/
def Origin.cells : Origin → Checked (Except SnapshotError Cells)
  | .config settings => return .ok (← configured settings)
  | .snapshot value =>
    match Snapshot.Parts.ofValue? value with
    | none => return .error .malformed
    | some parts => restored parts

/-! ### Sequences of calls -/

/-- Performs a call. -/
def perform : Call → HostM (Option Bool)
  | .executeArm opcode => do
    executeArm opcode
    return none
  | .executeThumb opcode => do
    executeThumb opcode
    return none
  | .step => do
    step
    return none
  | .raise exception => do
    raise exception
    return none
  | .requestInterrupt line => do
    let taken ← requestInterrupt line
    return some taken
  | .reset => do
    set (← check (configured .default))
    return none

/-- Goes on after a fault, but not after a trap. -/
def caught {α : Type} (x : HostM α) : HostM (Except Fault α) :=
  ExceptT.mk do
    match ← x.run with
    | .ok value => return .ok (.ok value)
    | .error (.fault fault) => return .ok (.error fault)
    | .error (.trap cause) => return .error (.trap cause)

/-- Performs calls one after the other and yields what each returned. -/
def performAll : List Call → HostM (List (Except Fault (Option Bool)))
  | [] => return []
  | call :: rest => do
    let result ← caught (perform call)
    let results ← performAll rest
    return result :: results

/-- Performs calls from given cells over a bus. -/
def performOn {σ : Type} (bus : Bus σ) (calls : List Call) (cells : Cells) (state : σ) :
    BusRun σ (Except Stop (List (Except Fault (Option Bool))) × Cells) :=
  ((performAll calls).run.run cells).run bus state

variable {α : Type} {cpu : Cpu}

/-! ### Following opcodes -/

theorem follows_proceed (set : InstructionSet) (flow : Flow) :
    Follows cpu.cells cpu (proceed set.size flow) (liftM (Armv4t.proceed set flow)) := by
  cases flow with
  | jump => exact follows_pure ()
  | next =>
    have hlt : 15 < 16 := by decide
    have hpc : lookup cpu.cells.registers 15 = .ok cpu.pc := by
      rw [lookup_of_lt hlt, Cells.getElem_pc_cells]
    refine follows_update_modify ?_
    rw [hpc, ok_bind]
    exact Cells.withPc_cells cpu _

theorem follows_executeArm (opcode : Word) :
    Follows cpu.cells cpu (executeArm opcode) (Armv4t.executeArm opcode) := by
  have hshift : shr opcode 28 = .ok (opcode >>> 28) := shr_of_lt (by decide)
  have hperform : Follows cpu.cells cpu (armDispatch opcode >>= proceed 4)
      (performArm opcode >>= fun flow => liftM (Armv4t.proceed .arm flow)) :=
    follows_bind (follows_armDispatch opcode) fun flow c => follows_proceed .arm flow
  unfold executeArm Armv4t.executeArm
  refine follows_check hshift ?_
  rw [conditionOf_shifted]
  refine follows_charge_bind rfl (follows_get ?_)
  refine follows_look (Cells.flags_cells cpu) ?_
  refine follows_look (Cells.fetchAddress_cells cpu) ?_
  refine follows_ite (fun _ => ?_) fun _ => ?_
  · refine follows_check (armText_eq_ok opcode cpu.fetchAddress) (follows_note_bind _ ?_)
    -- the processor refuses in place what the dispatch refuses, and only goes on from the rest
    unfold performArm at hperform
    cases hopcode : ArmInstruction.ofOpcode? opcode with
    | none =>
      rw [hopcode] at hperform
      exact hperform
    | some instruction =>
      rw [hopcode] at hperform
      cases hrefusal : instruction.refusal? with
      | none =>
        simp only [hrefusal] at hperform ⊢
        exact hperform
      | some reason =>
        simp only [hrefusal] at hperform ⊢
        exact hperform
  · exact follows_note_bind _ (follows_proceed .arm .next)

theorem follows_executeThumb (opcode : Halfword) :
    Follows cpu.cells cpu (executeThumb opcode) (Armv4t.executeThumb opcode) := by
  have hperform : Follows cpu.cells cpu (thumbDispatch opcode >>= proceed 2)
      (performThumb opcode >>= fun flow => liftM (Armv4t.proceed .thumb flow)) :=
    follows_bind (follows_thumbDispatch opcode) fun flow c => follows_proceed .thumb flow
  unfold executeThumb Armv4t.executeThumb
  refine follows_charge_bind rfl (follows_get ?_)
  refine follows_look (Cells.fetchAddress_cells cpu) ?_
  refine follows_check (thumbText_eq_ok opcode cpu.fetchAddress) (follows_note_bind _ ?_)
  -- as for ARM, the refusals of the dispatch are those of the processor
  unfold performThumb at hperform
  cases hopcode : ThumbInstruction.ofOpcode? opcode with
  | none =>
    rw [hopcode] at hperform
    exact hperform
  | some instruction =>
    rw [hopcode] at hperform
    cases hrefusal : instruction.refusal? with
    | none =>
      simp only [hrefusal] at hperform ⊢
      exact hperform
    | some reason =>
      simp only [hrefusal] at hperform ⊢
      exact hperform

theorem follows_step : Follows cpu.cells cpu step Armv4t.step := by
  unfold step Armv4t.step
  refine follows_look (Cells.fetchAddress_cells cpu) (follows_get ?_)
  refine follows_look (Cells.instructionSet_cells cpu) ?_
  cases cpu.instructionSet with
  | arm => exact follows_bind (follows_read .word _) fun opcode c => follows_executeArm opcode
  | thumb =>
    exact follows_bind (follows_read .halfword _) fun opcode c => follows_executeThumb opcode

/-! ### Following starts -/

theorem startStacks_eq_ok (pointers : StackPointers) :
    startStacks pointers = .ok (ofBanked ((pointers.map (StackPair.mk · 0)).map ofPair)) := by
  obtain ⟨user, fiq, irq, supervisor, abort, undefined⟩ := pointers
  rfl

/-- The registers of a processor that powers up, before the program counter is set. -/
theorem registers_unplaced (config : Config) :
    (Vector.replicate 16 0).set 13 (config.stackPointers.get config.mode.bank) =
      { Cpu.ofConfig config with pc := 0 }.cells.registers := by
  -- before the program counter is placed, only the stack pointer is written
  have hzero (number : Fin 16) (h : 13 ≠ number.val) :
      ((Vector.replicate 16 0).set 13 (config.stackPointers.get config.mode.bank))[number] = 0 := by
    rw [Fin.getElem_fin, Vector.getElem_set_ne _ _ h, Vector.getElem_replicate]
  refine eq_registers_cells fun register => ?_
  cases register with
  | low position =>
    have hlt := position.isLt
    have hne : 13 ≠ (Register.low position).index.val := by
      change 13 ≠ position.val
      omega
    rw [hzero _ hne]
    exact (Vector.getElem_replicate position.isLt).symm
  | high position =>
    have hlt := position.isLt
    have hne : 13 ≠ (Register.high position).index.val := by
      change 13 ≠ 8 + position.val
      omega
    rw [hzero _ hne]
    exact (Vector.getElem_replicate position.isLt).symm
  | sp => rfl
  | lr => rfl
  | pc => rfl

/-- A configuration gives the cells of the processor that it powers up. -/
theorem configured_eq_ok (config : Config) :
    configured config = .ok (Cpu.ofConfig config).cells := by
  have hplace : (13 : Nat) < 16 := by decide
  have hpair (pointer : Word) : lookup (ofPair ⟨pointer, 0⟩) 0 = .ok pointer := rfl
  have hcells : Cells.mk { Cpu.ofConfig config with pc := 0 }.cells.registers (.replicate 5 0)
      (.replicate 5 0) (ofBanked ((config.stackPointers.map (StackPair.mk · 0)).map ofPair))
      (.replicate 6 0) config.psr.toWord = { Cpu.ofConfig config with pc := 0 }.cells := rfl
  simp only [configured, startWord_eq_ok, startStacks_eq_ok, lookup_ofBanked, Banked.get_map, hpair,
    ok_bind, replace_of_lt hplace, registers_unplaced, hcells, Cells.lookahead_cells,
    Cells.write_cells]
  rfl

/-- A snapshot is refused on both sides, or gives the cells of its processor. -/
theorem restored_eq_ok (parts : Snapshot.Parts) :
    restored parts = .ok (Except.map Cpu.cells (match Psr.ofWord? parts.cpsr with
      | none => .error (.invalidMode (Psr.modeField parts.cpsr))
      | some psr => .ok (parts.cpu psr))) := by
  have hpsr := ofWord?_eq parts.cpsr
  rw [restored, modeOf?_eq_ok, ok_bind]
  -- the mode is looked for before anything is restored
  cases hmode : Mode.ofBits? (Psr.modeField parts.cpsr) with
  | none =>
    rw [hmode, Option.map_none] at hpsr
    simp only [hpsr, getBits_modeField, ok_bind, setWidth_modeField, pure_eq_ok]
    rfl
  | some mode =>
    rw [hmode, Option.map_some] at hpsr
    -- each register of the parts is at its number
    have hregisters : parts.registers =
        (parts.cpu (Psr.ofWordWithMode parts.cpsr mode)).cells.registers :=
      eq_registers_cells fun register => (parts.read_cpu _ register).symm
    have hword := Psr.toWord_of_ofWord? hpsr
    simp only [hpsr, pure_eq_ok]
    refine congrArg (fun cells => Except.ok (Except.ok cells)) ?_
    exact Cells.ext hregisters rfl rfl rfl rfl hword.symm

/-- An origin gives the cells of its processor, or is refused for the same reason. -/
theorem cells_origin (origin : Origin) : origin.cells = .ok (origin.cpu.map Cpu.cells) := by
  cases origin with
  | config settings =>
    rw [Origin.cells, configured_eq_ok]
    rfl
  | snapshot value =>
    simp only [Origin.cells, Origin.cpu, Snapshot.ofValue]
    cases Snapshot.Parts.ofValue? value with
    | none => rfl
    | some parts => exact restored_eq_ok parts

/-! ### Following calls -/

/-- A fault of one side is a fault of the other, and both go on. -/
theorem follows_caught {cells : Cells} {x : HostM α} {y : StepM α} (h : Follows cells cpu x y) :
    Follows cells cpu (caught x) (liftM y.run) := by
  refine BusProgram.Simulates.bind h ?_
  rintro ⟨_, _⟩ ⟨result, c⟩ ⟨rfl, rfl⟩
  cases result with
  | error fault => exact .pure ⟨rfl, rfl⟩
  | ok value => exact .pure ⟨rfl, rfl⟩

theorem follows_perform_call (call : Call) :
    Follows cpu.cells cpu (perform call) call.perform := by
  -- a call gives the value of what it performs, if that gives one
  cases call with
  | executeArm opcode => exact follows_bind (follows_executeArm opcode) fun _ c => follows_pure none
  | executeThumb opcode =>
    exact follows_bind (follows_executeThumb opcode) fun _ c => follows_pure none
  | step => exact follows_bind follows_step fun _ c => follows_pure none
  | raise exception => exact follows_bind (follows_raise exception) fun _ c => follows_pure none
  | requestInterrupt line =>
    exact follows_bind (follows_requestInterrupt line) fun taken c => follows_pure (some taken)
  | reset =>
    refine follows_check (configured_eq_ok .default) ?_
    exact follows_set (follows_pure none)

/-- Every sequence of calls is followed, by induction on the sequence. -/
theorem follows_performAll (calls : List Call) :
    Follows cpu.cells cpu (performAll calls) (liftM (Armv4t.performAll calls)) := by
  induction calls generalizing cpu with
  | nil => exact follows_pure []
  | cons call rest ih =>
    rw [performAll, Armv4t.performAll, liftM_bind]
    refine follows_bind (follows_caught (follows_perform_call call)) fun result c => ?_
    rw [liftM_bind]
    exact follows_bind ih fun results c => follows_pure (result :: results)

/-! ### Runs -/

/-- Calls that enter an exception of their own accord. -/
def EntersException : Call → Prop
  | .raise _ | .requestInterrupt _ => True
  | _ => False

/-- A call that enters an exception of its own accord never stops with a fault. -/
theorem ensures_entersException {call : Call} (h : EntersException call) :
    StepM.Ensures cpu call.perform fun result _ => ∃ value, result = .ok value := by
  cases call with
  | raise exception =>
    exact StepM.ensures_lift_bind (CpuM.ensures_true _) fun _ d _ =>
      StepM.ensures_pure ⟨none, rfl⟩
  | requestInterrupt line =>
    exact StepM.ensures_lift_bind (CpuM.ensures_true _) fun taken d _ =>
      StepM.ensures_pure ⟨some taken, rfl⟩
  -- the other calls do not enter an exception
  | executeArm opcode => exact h.elim
  | executeThumb opcode => exact h.elim
  | step => exact h.elim
  | reset => exact h.elim

/-- Among the results of a sequence of calls, those of calls that enter an exception of their own
accord are no faults, by induction on the sequence. -/
theorem ensures_performAll (calls : List Call) :
    CpuM.Ensures cpu (Armv4t.performAll calls) fun results _ =>
      List.Forall₂ (fun call result => EntersException call → ∃ value, result = .ok value)
        calls results := by
  induction calls generalizing cpu with
  | nil => exact CpuM.ensures_pure .nil
  | cons call rest ih =>
    -- only entries are asked not to fail
    have hcall : CpuM.Ensures cpu call.perform.run fun result _ =>
        EntersException call → ∃ value, result = .ok value := by
      by_cases h : EntersException call
      · exact CpuM.Ensures.mono (ensures_entersException h) fun _ _ hresult _ => hresult
      · exact CpuM.Ensures.mono (CpuM.ensures_true _) fun _ _ _ h' => absurd h' h
    refine CpuM.ensures_bind hcall fun result d hresult => ?_
    exact CpuM.ensures_bind ih fun results d hresults =>
      CpuM.ensures_pure (.cons hresult hresults)

/-- A run of calls on a host that traps, beside the run of the same calls on the processor: the host
gets to the end, every call returns what it returns on the processor, and the bus, its events and
the log are the same. -/
structure Completes {σ : Type} (calls : List Call)
    (host : BusRun σ (Except Stop (List (Except Fault (Option Bool))) × Cells))
    (run : BusRun σ (List (Except Fault (Option Bool)) × Cpu)) : Prop where
  results : host.value.1 = .ok run.value.1
  cells : host.value.2 = run.value.2.cells
  state : host.state = run.state
  events : host.events = run.events
  log : host.log = run.log
  /-- The mode field of the status word names a mode. -/
  mode : modeOf? host.value.2.cpsr = .ok (some run.value.2.mode)
  /-- Entering exceptions and requesting interrupts is never a fault. -/
  entered : List.Forall₂ (fun call result => EntersException call → ∃ value, result = .ok value)
    calls run.value.1

/-- A computation that cannot stop runs alike as one that may. -/
theorem run_lift {σ : Type} (bus : Bus σ) (x : CpuM α) (state : σ) :
    let run := (x.run cpu).run bus state
    ((liftM x : StepM α).run.run cpu).run bus state =
      ⟨(.ok run.value.1, run.value.2), run.state, run.events, run.log⟩ := by
  intro run
  have hbind := BusProgram.run_bind bus (x.run cpu)
    (fun ended => .pure ((Except.ok ended.1 : Except Fault α), ended.2)) state
  simp only [BusProgram.run_pure, List.append_nil] at hbind
  exact hbind

/-- **No run traps.**  From the processor of any configuration or of any accepted snapshot, over any
bus, a host performs any sequence of calls to its end: none of its additions, subtractions,
multiplications, shifts and indices is out of range, it is never asked for the mode of a status word
that names none, and it never stores with a signed format. -/
theorem completes_performOn {σ : Type} (origin : Origin) (h : origin.cpu = .ok cpu) (bus : Bus σ)
    (calls : List Call) (state : σ) :
    ∃ cells, origin.cells = .ok (.ok cells) ∧
      Completes calls (performOn bus calls cells state) (Armv4t.performOn bus calls cpu state) := by
  have hcells : origin.cells = .ok (.ok cpu.cells) := by
    rw [cells_origin, h]
    rfl
  have hfollows : Follows cpu.cells cpu (performAll calls) _ := follows_performAll calls
  have hrun := BusProgram.Simulates.run hfollows (Bus.alike_self bus) (rfl : state = state)
  rw [run_lift] at hrun
  obtain ⟨⟨hresults, hfinal⟩, hstate, hevents, hlog⟩ := hrun
  have hentered : CpuM.Ensures cpu (Armv4t.performAll calls) _ := ensures_performAll calls
  refine ⟨cpu.cells, hcells, ?_⟩
  -- a trap would be a result that no run of the processor has
  constructor
  case results => exact hresults
  case cells => exact hfinal
  case state => exact hstate
  case events => exact hevents
  case log => exact List.forall₂_eq_eq_eq ▸ hlog
  case mode =>
    rw [performOn, hfinal]
    exact modeOf?_toWord _
  case entered => exact hentered.run bus state

/-- A snapshot with a program counter off the instruction boundaries and saved status words that
name no mode, through a load of several registers that restores the status, a store of a halfword, a
taken and a refused interrupt, a Thumb opcode, a fetched opcode and a reset. -/
theorem completes_performOn_snapshot :
    let cpu : Cpu := { Cpu.reset with pc := 0xFFFFFFFF, spsrs := .replicate 0xFFFFFFE0 }
    let origin : Origin := .snapshot (Snapshot.toValue cpu)
    let memory : Memory := { regions := [⟨0, 64, false⟩] }
    let calls : List Call :=
      [.executeArm 0xE8FD8000, .executeArm 0xE1C100B2, .requestInterrupt .irq,
        .raise .fastInterruptRequest, .executeThumb 0xB5FF, .step, .reset, .requestInterrupt .fiq]
    origin.cpu = .ok cpu ∧
      ∃ cells, origin.cells = .ok (.ok cells) ∧
        Completes calls (performOn Memory.bus calls cells memory)
          (Armv4t.performOn Memory.bus calls cpu memory) := by
  intro cpu origin memory calls
  -- the program counter is off every boundary, and no saved status names a mode
  have h : origin.cpu = .ok cpu := Snapshot.ofValue_toValue cpu
  exact ⟨h, completes_performOn origin h Memory.bus calls memory⟩

/-- Cells that no processor has may trap: here the status word names no mode. -/
example :
    (performOn Memory.bus [.raise .softwareInterrupt] { Cpu.reset.cells with cpsr := 0 }
      { regions := [] }).value.1 = .error (.trap .unnamedMode) := by
  rfl

end Armv4t.Trapping

import Armv4t.Proofs.ArmForm
import Armv4t.Proofs.Effects
import Armv4t.Proofs.ExceptionEntry
import Armv4t.Proofs.StaleStorage

/-!
# What status transfers write

A status write replaces the bits of the fields it chooses: all of them in the saved status, and in
the current one those that the mode may change, which never include the bit of the instruction set.
Only a control field that names no mode is refused.  `StatusWrite.yields_saved` and
`StatusWrite.yields_current` say so of the instructions and `Cpu.StatusReplaced` states what is
left, with the frame.

No field holds bits 8 to 23.  They are clear in every status word of a processor that powers up, and
nothing that a processor does sets one (`Cpu.ReservedClear`): an instruction writes flags, installs
a saved status or enters a handler, and all these keep them.

Main statement: `statusTransfer_exact`.
-/

namespace Armv4t

open StepM

variable {c : Cpu}

/-! ### Masks -/

namespace StatusWrite

variable (write : StatusWrite) {i : Nat}

/-- No field holds the bits from 8 to 23. -/
theorem getLsbD_mask_of_lt (h : 8 ≤ i) (h' : i < 24) : write.mask.getLsbD i = false := by
  have hflags : ∀ i < 24, 8 ≤ i → flagMask.getLsbD i = false := by decide
  have hcontrol : ∀ i < 24, 8 ≤ i → controlMask.getLsbD i = false := by decide
  unfold mask
  rw [BitVec.getLsbD_or]
  split_ifs <;> simp [hflags i h' h, hcontrol i h' h]

theorem getLsbD_currentMask_of_lt (mode : Mode) (h : 8 ≤ i) (h' : i < 24) :
    (write.currentMask mode).getLsbD i = false := by
  unfold currentMask
  split_ifs <;> simp [BitVec.getLsbD_and, write.getLsbD_mask_of_lt h h']

/-- The saved status of a bank with its masked bits replaced. -/
def savedWord (c : Cpu) (bank : Bank) : Word :=
  merge write.mask (write.source.value c) (c.spsrs.get bank)

/-- The current status with its masked bits replaced. -/
def currentWord (c : Cpu) : Word :=
  merge (write.currentMask c.mode) (write.source.value c) c.cpsr.toWord

/-- The mode field is the written one if the control field can be written. -/
theorem modeField_currentWord :
    Psr.modeField (write.currentWord c) =
      if write.fields.getLsbD 0 && c.mode.isPrivileged then
        Psr.modeField (write.source.value c)
      else c.mode.bits := by
  have hbits : c.mode.bits = Psr.modeField c.cpsr.toWord := (Psr.modeField_toWord c.cpsr).symm
  rw [hbits]
  ext i hi
  -- in the mode field the mask is all of it or nothing
  have hmask := getLsbD_currentMask_mode write c.mode hi
  simp only [currentWord, Psr.modeField, BitVec.getElem_extractLsb', Nat.zero_add, getLsbD_merge,
    hmask]
  split_ifs <;> simp

/-- The current status is refused if its control field can be written and the value names no
mode. -/
theorem ofWord?_currentWord_eq_none_iff :
    Psr.ofWord? (write.currentWord c) = none ↔ c.mode ≠ .user ∧ write.fields.getLsbD 0 = true ∧
      ∀ mode : Mode, mode.bits ≠ Psr.modeField (write.source.value c) := by
  rw [Psr.ofWord?_eq_none_iff, modeField_currentWord]
  constructor
  · intro h
    split_ifs at h with hheld
    · obtain ⟨hfield, hmode⟩ := Bool.and_eq_true_iff.1 hheld
      exact ⟨bne_iff_ne.1 hmode, hfield, h⟩
    -- a field that keeps the mode of the processor names that mode
    · exact absurd rfl (h c.mode)
  · rintro ⟨hmode, hfield, h⟩
    have hheld : (write.fields.getLsbD 0 && c.mode.isPrivileged) = true :=
      Bool.and_eq_true_iff.2 ⟨hfield, bne_iff_ne.2 hmode⟩
    rw [if_pos hheld]
    exact h

variable {write}

/-- A refused status has the written mode field. -/
theorem modeField_of_refused (h : Psr.ofWord? (write.currentWord c) = none) :
    Psr.modeField (write.currentWord c) = Psr.modeField (write.source.value c) := by
  obtain ⟨hmode, hfield, -⟩ := write.ofWord?_currentWord_eq_none_iff.1 h
  have hheld : (write.fields.getLsbD 0 && c.mode.isPrivileged) = true :=
    Bool.and_eq_true_iff.2 ⟨hfield, bne_iff_ne.2 hmode⟩
  rw [modeField_currentWord, if_pos hheld]

/-! ### Execution -/

/-- A write of the saved status always succeeds; in a mode that has none it does nothing. -/
theorem yields_saved (hs : write.saved = true) :
    Yields c write.execute fun events result d =>
      events = [] ∧ result = .ok .next ∧ d = c.withSpsr (write.savedWord c c.mode.bank) := by
  unfold execute
  apply yields_get_bind
  dsimp only
  rw [if_pos hs]
  unfold Cpu.spsr? Cpu.withSpsr
  -- the two notions of a mode without saved status are the same bank
  split_ifs with hb
  · exact ⟨rfl, rfl, rfl⟩
  · exact ⟨rfl, rfl, rfl⟩

/-- A write of the current status installs the status that the new word is the form of, and stops
if there is none. -/
theorem yields_current (hs : write.saved = false) :
    Yields c write.execute fun events result d => events = [] ∧
      ((∃ psr, Psr.ofWord? (write.currentWord c) = some psr ∧ result = .ok .next ∧
          d = c.withPsr psr) ∨
        Psr.ofWord? (write.currentWord c) = none ∧
          result = .error (.invalidMode (Psr.modeField (write.source.value c))) ∧ d = c) := by
  unfold execute
  apply yields_get_bind
  dsimp only
  rw [if_neg (by rw [hs]; decide)]
  apply yields_installPsrWord_bind
  · intro psr hp
    exact ⟨rfl, .inl ⟨psr, hp, rfl, rfl⟩⟩
  · intro hn
    have hfield := modeField_of_refused hn
    exact ⟨rfl, .inr ⟨hn, congrArg (Except.error ∘ Fault.invalidMode) hfield, rfl⟩⟩

end StatusWrite

/-- The word that a status read delivers: in a mode without saved status the current one stands in
for it. -/
def Cpu.statusWord (cpu : Cpu) (saved : Bool) : Word :=
  if saved then cpu.spsr?.getD cpu.cpsr.toWord else cpu.cpsr.toWord

theorem CpuM.yields_readStatus (saved : Bool) (destination : Register) :
    Yields c (readStatus saved destination) fun _ flow d =>
      flow = .next ∧ d = c.write destination (c.statusWord saved) := by
  -- with and without saved status, the same write follows
  have hwrite (value : Word) : Yields c
      (writeRegister destination value >>= fun _ => pure Flow.next) fun _ flow d =>
        flow = .next ∧ d = c.write destination value :=
    yields_silent_bind (yields_writeRegister _ _) fun _ => ⟨rfl, rfl⟩
  unfold readStatus Cpu.statusWord
  apply yields_get_bind
  dsimp only
  split_ifs
  · cases c.spsr? with
    | some word => exact hwrite word
    | none => exact yields_note_bind (hwrite _)
  · exact hwrite _

/-! ### What a status write leaves -/

/-- A status write has gone on to the next instruction and left these status words.  No register
of any mode has changed. -/
structure Cpu.StatusReplaced (c d : Cpu) (current : Word) (saved : Bank → Word) : Prop where
  current : d.cpsr.toWord = current
  saved (bank : Bank) : d.spsrs.get bank = saved bank
  registers (mode : Mode) {register : Register} (hr : register ≠ .pc) :
    d.readIn mode register = c.readIn mode register
  pc : d.pc = c.pc + 4

namespace Cpu

theorem statusReplaced_withSpsr (c : Cpu) (saved : Bank → Word) :
    c.StatusReplaced ((c.withSpsr (saved c.mode.bank)).advanced .arm) c.cpsr.toWord fun bank =>
      if bank = c.mode.bank ∧ bank ≠ .user then saved bank else c.spsrs.get bank where
  current := rfl
  saved bank := by
    refine (c.get_spsrs_withSpsr _ bank).trans (if_ctx_congr Iff.rfl ?_ fun _ => rfl)
    exact fun h => congrArg saved h.1.symm
  registers mode register hr := by
    refine (readIn_withPc _ _ mode hr).trans ?_
    rw [readIn_withSpsr]
  pc := rfl

theorem statusReplaced_withPsr (c : Cpu) (psr : Psr) :
    c.StatusReplaced ((c.withPsr psr).advanced .arm) psr.toWord c.spsrs.get where
  current := rfl
  saved bank := congrArg (·.get bank) (c.spsrs_withPsr psr)
  registers mode register hr := by
    refine (readIn_withPc _ _ mode hr).trans ?_
    rw [readIn_withPsr]
  pc := congrArg (· + 4) (c.pc_withPsr psr)

end Cpu

/-! ### Opcodes -/

namespace Opcode

variable {opcode : Opcode} {write : StatusWrite}

theorem yields_writeSaved (hf : opcode.armForm? = some (.writeStatus write))
    (hc : opcode.holds c.cpsr.flags = true) (hs : write.saved = true) :
    Yields c opcode.execute fun events result d => events = [.charge 1] ∧ result = .ok () ∧
      d = (c.withSpsr (write.savedWord c c.mode.bank)).advanced opcode.instructionSet := by
  apply yields_execute hf hc rfl
  refine BusProgram.Yields.mono (StatusWrite.yields_saved hs) ?_
  -- an instruction that goes on at the next one moves the program counter by a word
  rintro events ⟨result, d⟩ ⟨rfl, hresult, rfl⟩
  obtain rfl : result = .ok .next := hresult
  exact ⟨rfl, rfl, rfl⟩

theorem yields_writeCurrent (hf : opcode.armForm? = some (.writeStatus write))
    (hc : opcode.holds c.cpsr.flags = true) (hs : write.saved = false) :
    Yields c opcode.execute fun events result d => events = [.charge 1] ∧
      ((∃ psr, Psr.ofWord? (write.currentWord c) = some psr ∧ result = .ok () ∧
          d = (c.withPsr psr).advanced opcode.instructionSet) ∨
        Psr.ofWord? (write.currentWord c) = none ∧
          result = .error (.invalidMode (Psr.modeField (write.source.value c))) ∧ d = c) := by
  apply yields_execute hf hc rfl
  refine BusProgram.Yields.mono (StatusWrite.yields_current hs) ?_
  rintro events ⟨result, d⟩ ⟨rfl, ⟨psr, hp, hresult, rfl⟩ | ⟨hn, hresult, hd⟩⟩
  · obtain rfl : result = .ok .next := hresult
    exact ⟨rfl, .inl ⟨psr, hp, rfl, rfl⟩⟩
  · obtain rfl : result = .error _ := hresult
    exact ⟨rfl, .inr ⟨hn, rfl, hd⟩⟩

end Opcode

/-- A register that was written is read back after the next instruction was reached; the program
counter is an instruction address and has moved on. -/
theorem Cpu.read_advanced_write (cpu : Cpu) (register : Register) (value : Word) :
    ((cpu.write register value).advanced .arm).read register =
      if register = .pc then cpu.instructionSet.align value + 4 else value := by
  split_ifs with hr
  -- the program counter keeps to instruction boundaries
  · rw [hr]
    rfl
  · rw [read_advanced _ _ hr, read_write cpu value hr, if_pos rfl]

/-- After a write of the saved status, the word of it that is read is the written one, and the
current status in a mode that has none. -/
theorem Cpu.statusWord_withSpsr (c : Cpu) (saved : Bank → Word) :
    ((c.withSpsr (saved c.mode.bank)).advanced .arm).statusWord true =
      if c.mode = .user ∨ c.mode = .system then c.cpsr.toWord else saved c.mode.bank := by
  -- User and System mode share the bank without a saved status
  have hbank : c.mode.bank = .user ↔ c.mode = .user ∨ c.mode = .system := by
    cases c.mode <;> decide
  have hword := c.get_spsrs_withSpsr (saved c.mode.bank) c.mode.bank
  show (if c.mode.bank = .user then none
    else some ((c.withSpsr (saved c.mode.bank)).spsrs.get c.mode.bank)).getD c.cpsr.toWord = _
  by_cases hu : c.mode.bank = .user
  · rw [if_pos hu, if_pos (hbank.1 hu)]
    rfl
  · rw [if_neg hu, if_neg (mt hbank.2 hu), hword, if_pos ⟨rfl, hu⟩]
    rfl

section Executed

variable {opcode : Word}

theorem fields_ofStatusWrite (opcode : Word) :
    (ArmInstruction.ofStatusWrite opcode).fields.getLsbD 3 = opcode.getLsbD 19 ∧
      (ArmInstruction.ofStatusWrite opcode).fields.getLsbD 0 = opcode.getLsbD 16 := by
  simp [ArmInstruction.ofStatusWrite]

theorem mask_ofStatusWrite (opcode : Word) :
    (ArmInstruction.ofStatusWrite opcode).mask =
      (if opcode.getLsbD 19 then 0xFF000000 else 0) |||
        (if opcode.getLsbD 16 then 0x000000FF else 0) := by
  obtain ⟨hflags, hcontrol⟩ := fields_ofStatusWrite opcode
  rw [StatusWrite.mask, hflags, hcontrol]
  rfl

theorem armForm?_of_writeStatus (hk : ArmKind.ofOpcode opcode = .writeStatus) :
    (Opcode.arm opcode).armForm? = some (.writeStatus (ArmInstruction.ofStatusWrite opcode)) := by
  show ArmInstruction.ofOpcode? opcode = _
  rw [ArmInstruction.ofOpcode?, hk]

theorem armForm?_of_readStatus (hk : ArmKind.ofOpcode opcode = .readStatus) :
    (Opcode.arm opcode).armForm? =
      some (.readStatus (opcode.getLsbD 22) (ArmInstruction.registerAt opcode 12)) := by
  show ArmInstruction.ofOpcode? opcode = _
  rw [ArmInstruction.ofOpcode?, hk]

variable (hc : (ArmInstruction.condition opcode).holds c.cpsr.flags = true) {σ : Type}
  (bus : Bus σ) (state : σ)

include hc

theorem run_writeSaved (hk : ArmKind.ofOpcode opcode = .writeStatus)
    (hs : opcode.getLsbD 22 = true) :
    let write := ArmInstruction.ofStatusWrite opcode
    let run := (executeArm opcode).runOn bus c state
    run.events = [.charge 1] ∧
      run.value = (.ok (), (c.withSpsr (write.savedWord c c.mode.bank)).advanced .arm) := by
  obtain ⟨hevents, hresult, hended⟩ := BusProgram.Yields.run
    (Opcode.yields_writeSaved (armForm?_of_writeStatus hk) hc hs) bus state
  exact ⟨hevents, Prod.ext hresult hended⟩

theorem run_writeCurrent (hk : ArmKind.ofOpcode opcode = .writeStatus)
    (hs : opcode.getLsbD 22 = false) :
    let write := ArmInstruction.ofStatusWrite opcode
    let run := (executeArm opcode).runOn bus c state
    run.events = [.charge 1] ∧
      ((∃ psr, Psr.ofWord? (write.currentWord c) = some psr ∧
          run.value = (.ok (), (c.withPsr psr).advanced .arm)) ∨
        Psr.ofWord? (write.currentWord c) = none ∧
          run.value = (.error (.invalidMode (Psr.modeField (write.source.value c))), c)) := by
  obtain ⟨hevents, ⟨psr, hp, hresult, hended⟩ | ⟨hn, hresult, hended⟩⟩ := BusProgram.Yields.run
    (Opcode.yields_writeCurrent (armForm?_of_writeStatus hk) hc hs) bus state
  · exact ⟨hevents, .inl ⟨psr, hp, Prod.ext hresult hended⟩⟩
  · exact ⟨hevents, .inr ⟨hn, Prod.ext hresult hended⟩⟩

theorem run_readStatus (hk : ArmKind.ofOpcode opcode = .readStatus) :
    let run := (executeArm opcode).runOn bus c state
    let destination := ArmInstruction.registerAt opcode 12
    let word := c.statusWord (opcode.getLsbD 22)
    run.value = (.ok (), (c.write destination word).advanced .arm) := by
  obtain ⟨hresult, hended⟩ := BusProgram.Yields.run
    (Opcode.yields_execute_of_lift (armForm?_of_readStatus hk) hc rfl rfl
      (CpuM.yields_readStatus _ _)) bus state
  exact Prod.ext hresult hended

end Executed

/-! ### Bits without a function -/

/-- Bits 8 to 23 of a word are clear. -/
def MiddleClear (word : Word) : Prop :=
  ∀ i, 8 ≤ i → i < 24 → word.getLsbD i = false

theorem middleClear_merge {mask new old : Word}
    (hm : ∀ i, 8 ≤ i → i < 24 → mask.getLsbD i = false) (ho : MiddleClear old) :
    MiddleClear (StatusWrite.merge mask new old) := by
  intro i hi hi'
  rw [StatusWrite.getLsbD_merge, hm i hi hi']
  exact ho i hi hi'

/-- The bits are among those without a function. -/
theorem MiddleClear.of_reserved_eq {psr other : Psr} (h : MiddleClear psr.toWord)
    (hr : other.reserved = psr.reserved) : MiddleClear other.toWord := by
  intro i hi hi'
  rw [Psr.getLsbD_toWord_reserved _ hi (by omega), hr,
    ← Psr.getLsbD_toWord_reserved _ hi (by omega)]
  exact h i hi hi'

/-- The bits are clear in every status word. -/
structure Cpu.ReservedClear (cpu : Cpu) : Prop where
  cpsr : MiddleClear cpu.cpsr.toWord
  spsrs (bank : Bank) : MiddleClear (cpu.spsrs.get bank)

namespace Cpu.ReservedClear

variable {d : Cpu}

theorem ofConfig (config : Config) : (ofConfig config).ReservedClear where
  cpsr i hi hi' := by
    have hreserved : (Cpu.ofConfig config).cpsr.reserved = 0 := rfl
    rw [Psr.getLsbD_toWord_reserved _ hi (by omega), hreserved]
    -- a configuration leaves these bits of the status word zero
    exact BitVec.getLsbD_zero
  spsrs bank i _ _ := by
    have hzero : (Cpu.ofConfig config).spsrs.get bank = 0 := Banked.get_replicate 0 bank
    rw [hzero]
    exact BitVec.getLsbD_zero

theorem of_eq (h : c.ReservedClear) (hr : d.cpsr.reserved = c.cpsr.reserved)
    (hs : d.spsrs = c.spsrs) : d.ReservedClear where
  cpsr := h.cpsr.of_reserved_eq hr
  spsrs bank := by
    rw [hs]
    exact h.spsrs bank

theorem withPsr (h : c.ReservedClear) {psr : Psr} (hp : MiddleClear psr.toWord) :
    (c.withPsr psr).ReservedClear where
  cpsr := hp
  spsrs bank := by
    rw [spsrs_withPsr]
    exact h.spsrs bank

theorem withSpsr (h : c.ReservedClear) {word : Word} (hw : MiddleClear word) :
    (c.withSpsr word).ReservedClear where
  cpsr := h.cpsr
  spsrs bank := by
    rw [get_spsrs_withSpsr]
    split_ifs
    · exact hw
    · exact h.spsrs bank

/-- The current status is a status word that may be saved. -/
theorem spsr? (h : c.ReservedClear) {word : Word} (hw : c.spsr? = some word) :
    MiddleClear word := by
  unfold Cpu.spsr? at hw
  split_ifs at hw
  obtain rfl := Option.some.inj hw
  exact h.spsrs _

/-- Entry keeps the old status and takes its bits over into the new one. -/
theorem handling (h : c.ReservedClear) (exception : Exception) :
    (c.handling exception).ReservedClear := by
  have hpsr : MiddleClear (exception.handlerPsr c.cpsr).toWord := h.cpsr.of_reserved_eq rfl
  have hlink : ((c.withPsr (exception.handlerPsr c.cpsr)).write .lr
      (c.returnAddress exception)).ReservedClear :=
    (h.withPsr hpsr).of_eq rfl rfl
  -- the link register and then the old status as the saved one
  exact hlink.withSpsr h.cpsr

theorem entered (h : c.ReservedClear) (exception : Exception) :
    (c.entered exception).ReservedClear :=
  (h.handling exception).of_eq rfl rfl

end Cpu.ReservedClear

variable {allows : Effect → Prop} {d : Cpu} {events : List BusEvent} {flow : Flow}

theorem Cpu.Written.reservedClear (h : c.Written allows d) (hc : c.ReservedClear) :
    d.ReservedClear := by
  -- a write changes at most the flags, which lie above these bits
  obtain ⟨flags, hcpsr⟩ := h.cpsr
  have hreserved : d.cpsr.reserved = c.cpsr.reserved := by
    rw [hcpsr]
  exact hc.of_eq hreserved h.spsrs

theorem Redirected.reservedClear (h : Redirected allows c d) (hc : c.ReservedClear) :
    d.ReservedClear := by
  cases h with
  | within h => exact h.reservedClear hc
  | exchanged ha h set => exact (h.reservedClear hc).of_eq rfl rfl
  | restored ha h hs => exact (h.reservedClear hc).withPsr (hc.spsr? hs)
  | called ha => exact hc.handling .softwareInterrupt

/-- Whatever an instruction does but a write of the saved status, the bits stay clear. -/
theorem InstructionEnd.reservedClear (h : InstructionEnd allows c events flow d)
    (hn : ¬allows .saveStatus) (hc : c.ReservedClear) : d.ReservedClear := by
  cases h with
  | next hq h => exact h.reservedClear hc
  | status hq ha hp =>
    apply hc.withPsr
    rw [Psr.toWord_of_ofWord? hp]
    -- the mask of the write holds none of the bits, whatever word is written
    exact middleClear_merge (fun _ => StatusWrite.getLsbD_currentMask_of_lt _ _) hc.cpsr
  -- this case is left to the exact account of such a write
  | saved hq ha value => exact absurd ha hn
  | jump hq h address => exact (h.reservedClear hc).of_eq rfl rfl

theorem OpcodeEnd.reservedClear {opcode : Opcode} (h : OpcodeEnd opcode c events d)
    (hn : ¬opcode.Allows c.cpsr.flags .saveStatus) (hc : c.ReservedClear) : d.ReservedClear := by
  cases h with
  | skipped h => exact hc.of_eq rfl rfl
  | next h => exact (h.reservedClear hn hc).of_eq rfl rfl
  | jump h => exact h.reservedClear hn hc

/-- The saved status is written by an instruction of its own only. -/
theorem Opcode.Allows.writeStatus {opcode : Opcode}
    (h : opcode.Allows c.cpsr.flags .saveStatus) : ∃ write : StatusWrite,
      opcode.armForm? = some (.writeStatus write) ∧ write.saved = true ∧
        opcode.holds c.cpsr.flags = true := by
  cases h with
  | arm hholds hi h =>
    cases h with
    | saveStatus hs => exact ⟨_, hi, hs, hholds⟩
  | thumb hi h => nomatch h

section Runs

variable {σ : Type} (bus : Bus σ) (state : σ)

/-- Every opcode keeps the bits clear.  What a write of the saved status leaves is known exactly. -/
theorem Opcode.reservedClear_execute (opcode : Opcode) (hc : c.ReservedClear) :
    (opcode.execute.runOn bus c state).value.2.ReservedClear := by
  -- an end of a saved write does not tell which word it has saved, so that it goes by itself
  by_cases hallows : opcode.Allows c.cpsr.flags .saveStatus
  · obtain ⟨write, hf, hs, hholds⟩ := hallows.writeStatus
    obtain ⟨-, -, hended⟩ := BusProgram.Yields.run (yields_writeSaved hf hholds hs) bus state
    rw [show (opcode.execute.runOn bus c state).value.2 = _ from hended]
    have hword : MiddleClear (write.savedWord c c.mode.bank) :=
      middleClear_merge (fun _ => write.getLsbD_mask_of_lt) (hc.spsrs c.mode.bank)
    exact (hc.withSpsr hword).of_eq rfl rfl
  · cases hr : (opcode.execute.runOn bus c state).value.1 with
    -- a fault leaves the current status but for its flags
    | error fault =>
      obtain ⟨⟨-, hcpsr, hspsrs⟩, -⟩ := (opcode.stops_execute.run hr).keeps
      exact hc.of_eq (congrArg Psr.reserved hcpsr) hspsrs
    | ok ended => exact (opcode.ends_execute.run hr).reservedClear hallows hc

theorem ProgramStep.reservedClear_perform (step : ProgramStep) (hc : c.ReservedClear) :
    (step.perform.runOn bus c state).value.2.ReservedClear := by
  -- fetching an opcode changes nothing of the processor
  have hkept : (step.opcode.runOn bus c state).value.2 = c := step.value_opcode
  rw [perform_eq]
  cases ho : (step.opcode.runOn bus c state).value.1 with
  | error fault =>
    rw [runOn_bind_of_error (Prod.ext ho hkept)]
    exact hc
  | ok opcode =>
    rw [runOn_bind_of_ok (Prod.ext ho hkept)]
    exact opcode.reservedClear_execute bus _ hc

/-- A computation that yields a value of its own at the end leaves the processor as it is there. -/
theorem StepM.value_bind_pure {α β : Type} (x : StepM α) (f : α → β) :
    ((x >>= fun a => pure (f a)).runOn bus c state).value.2 = (x.runOn bus c state).value.2 := by
  cases hr : (x.runOn bus c state).value.1 with
  | error fault => rw [runOn_bind_of_error (Prod.ext hr rfl)]
  | ok a =>
    rw [runOn_bind_of_ok (Prod.ext hr rfl)]
    rfl

theorem Call.reservedClear_perform (call : Call) (hc : c.ReservedClear) :
    (call.perform.runOn bus c state).value.2.ReservedClear := by
  -- the three calls that execute a step end in the same way
  have hstep (step : ProgramStep) :
      ((do step.perform; return none : StepM (Option Bool)).runOn bus c
        state).value.2.ReservedClear := by
    rw [value_bind_pure]
    exact step.reservedClear_perform bus state hc
  cases call with
  | executeArm opcode => exact hstep (.given (.arm opcode))
  | executeThumb opcode => exact hstep (.given (.thumb opcode))
  | step => exact hstep .fetched
  -- raising an exception by a call is its entry, and so is a request that is taken
  | raise exception =>
    have hraise : StepM.Ensures c (raise exception).perform fun _ d => d = c.entered exception :=
      StepM.ensures_lift_bind (CpuM.ensures_raise exception) fun _ _ hd => StepM.ensures_pure hd
    rw [show ((raise exception).perform.runOn bus c state).value.2 = _ from hraise.run bus state]
    exact hc.entered exception
  | requestInterrupt line =>
    have hrequest : StepM.Ensures c (requestInterrupt line).perform fun _ d => d.ReservedClear := by
      refine StepM.ensures_lift_bind (CpuM.ensures_requestInterrupt line) ?_
      rintro taken d (⟨-, rfl⟩ | ⟨-, -, rfl⟩)
      · exact StepM.ensures_pure hc
      · exact StepM.ensures_pure (hc.entered line.exception)
    exact hrequest.run bus state
  | reset => exact .ofConfig .default

/-- A sequence of calls runs the first call and then the others, also after a fault. -/
theorem value_performOn_cons (call : Call) (rest : List Call) (c : Cpu) :
    let first := call.perform.runOn bus c state
    (performOn bus (call :: rest) c state).value.2 =
      (performOn bus rest first.value.2 first.state).value.2 := by
  intro first
  unfold performOn
  rw [performAll, CpuM.run_bind, CpuM.run_bind]
  rfl

/-- Every sequence of calls keeps the bits clear, by induction on the sequence. -/
theorem reservedClear_performOn (calls : List Call) (hc : c.ReservedClear) :
    (performOn bus calls c state).value.2.ReservedClear := by
  induction calls generalizing c state with
  -- whether the first call has failed does not matter to the others
  | nil => exact hc
  | cons call rest ih =>
    rw [value_performOn_cons]
    exact ih _ (call.reservedClear_perform bus state hc)

end Runs

/-- **Status transfers write exactly the permitted bits.**  A write of the saved status replaces the
bits of the chosen fields, and does nothing in a mode without saved status.  A write of the current
status stops at a mode field that names no mode, if it may write one, and changes nothing then;
otherwise it replaces the bits of the chosen fields, in User mode of the flags only, and never that
of the instruction set.  No register of any mode and no other status changes, and a following read
delivers what was written.  So bits 8 to 23 of every status word are clear after any sequence of
calls from any configuration. -/
theorem statusTransfer_exact {opcode : Word} (c : Cpu)
    (hk : ArmKind.ofOpcode opcode = .writeStatus)
    (hc : (ArmInstruction.condition opcode).holds c.cpsr.flags = true) {σ : Type} (bus : Bus σ)
    (state : σ) :
    let run := (executeArm opcode).runOn bus c state
    let value := (ArmInstruction.ofStatusWrite opcode).source.value c
    let mask : Word := (if opcode.getLsbD 19 then 0xFF000000 else 0) |||
      (if opcode.getLsbD 16 then 0x000000FF else 0)
    let currentMask := (if c.mode = .user then mask &&& 0xFF000000 else mask) &&& ~~~0x00000020
    let current := (value &&& currentMask) ||| (c.cpsr.toWord &&& ~~~currentMask)
    let saved (bank : Bank) := (value &&& mask) ||| (c.spsrs.get bank &&& ~~~mask)
    let refused := c.mode ≠ .user ∧ opcode.getLsbD 16 = true ∧
      ∀ mode : Mode, mode.bits ≠ Psr.modeField value
    run.events = [.charge 1] ∧
    (opcode.getLsbD 22 = true → run.value.1 = .ok () ∧
      c.StatusReplaced run.value.2 c.cpsr.toWord fun bank =>
        if bank = c.mode.bank ∧ bank ≠ .user then saved bank else c.spsrs.get bank) ∧
    (opcode.getLsbD 22 = false →
      (refused → run.value = (.error (.invalidMode (Psr.modeField value)), c)) ∧
      (¬refused → run.value.1 = .ok () ∧
        c.StatusReplaced run.value.2 current c.spsrs.get)) ∧
    (∀ d, run.value = (.ok (), d) → ∀ reading : Word,
      ArmKind.ofOpcode reading = .readStatus → reading.getLsbD 22 = opcode.getLsbD 22 →
      (ArmInstruction.condition reading).holds d.cpsr.flags = true → ∀ later : σ,
        let read := (executeArm reading).runOn bus d later
        let destination := ArmInstruction.registerAt reading 12
        let written :=
          if opcode.getLsbD 22 = false then current
          else if c.mode = .user ∨ c.mode = .system then c.cpsr.toWord
          else saved c.mode.bank
        read.value.1 = .ok () ∧ read.value.2.read destination =
          if destination = .pc then d.instructionSet.align written + 4 else written) ∧
    ∀ (config : Config) (calls : List Call) (start : σ),
      let ended := (performOn bus calls (.ofConfig config) start).value.2
      ∀ i, 8 ≤ i → i < 24 →
        ended.cpsr.toWord.getLsbD i = false ∧ ∀ bank, (ended.spsrs.get bank).getLsbD i = false := by
  intro run value mask currentMask current saved refused
  -- the words and the refusal, as the instruction computes them
  let write := ArmInstruction.ofStatusWrite opcode
  have hmask : write.mask = mask := mask_ofStatusWrite opcode
  have hsaved (bank : Bank) : write.savedWord c bank = saved bank := by
    rw [StatusWrite.savedWord, hmask]
    rfl
  have hcurrent : write.currentWord c = current := by
    rw [StatusWrite.currentWord, StatusWrite.currentMask, hmask]
    rfl
  have hrefused : Psr.ofWord? (write.currentWord c) = none ↔ refused := by
    rw [StatusWrite.ofWord?_currentWord_eq_none_iff, (fields_ofStatusWrite opcode).2]
  -- bits 8 to 23: the run from a configuration, whatever the opcode
  have hclear (config : Config) (calls : List Call) (start : σ) :
      (performOn bus calls (.ofConfig config) start).value.2.ReservedClear :=
    reservedClear_performOn bus start calls (.ofConfig config)
  have hreserved (config : Config) (calls : List Call) (start : σ) (i : Nat) (hi : 8 ≤ i)
      (hi' : i < 24) := And.intro ((hclear config calls start).cpsr i hi hi')
    fun bank => (hclear config calls start).spsrs bank i hi hi'
  cases hs : opcode.getLsbD 22 with
  | true =>
    obtain ⟨hevents, hvalue⟩ := run_writeSaved hc bus state hk hs
    rw [hsaved] at hvalue
    refine ⟨hevents, fun _ => ?_, fun h => Bool.noConfusion h, ?_, hreserved⟩
    · show run.value.1 = _ ∧ c.StatusReplaced run.value.2 _ _
      rw [show run.value = _ from hvalue]
      exact ⟨rfl, c.statusReplaced_withSpsr saved⟩
    -- what is read is the status that the write has left
    · intro d hd reading hkind hbit hholds later
      obtain rfl : d = _ := congrArg Prod.snd (hd.symm.trans hvalue)
      dsimp only
      rw [run_readStatus hholds bus later hkind, hbit, Cpu.statusWord_withSpsr]
      exact ⟨rfl, Cpu.read_advanced_write _ _ _⟩
  | false =>
    -- the value names a mode and is installed, or it is refused
    obtain ⟨hevents, ⟨psr, hp, hvalue⟩ | ⟨hn, hvalue⟩⟩ := run_writeCurrent hc bus state hk hs
    · have hword : psr.toWord = current := (Psr.toWord_of_ofWord? hp).trans hcurrent
      have haccepted : ¬refused := fun h => by
        rw [hrefused.2 h] at hp
        cases hp
      refine ⟨hevents, fun h => Bool.noConfusion h,
        fun _ => ⟨fun h => absurd h haccepted, fun _ => ?_⟩, ?_, hreserved⟩
      · show run.value.1 = _ ∧ c.StatusReplaced run.value.2 _ _
        rw [show run.value = _ from hvalue, ← hword]
        exact ⟨rfl, c.statusReplaced_withPsr psr⟩
      · intro d hd reading hkind hbit hholds later
        obtain rfl : d = _ := congrArg Prod.snd (hd.symm.trans hvalue)
        dsimp only
        rw [run_readStatus hholds bus later hkind, hbit, ← hword]
        exact ⟨rfl, Cpu.read_advanced_write _ _ _⟩
    · have hr : refused := hrefused.1 hn
      refine ⟨hevents, fun h => Bool.noConfusion h,
        fun _ => ⟨fun _ => hvalue, fun h => absurd hr h⟩, ?_, hreserved⟩
      -- after a refusal there is nothing to read back
      intro d hd
      cases hd.symm.trans hvalue

/-- In the handler of a fast interrupt, a write of the control field leads to System mode and admits
interrupts, and a following read delivers the new status. -/
theorem statusTransfer_exact_fastHandler :
    let opcode : Word := 0xE321F01F
    let run := (executeArm opcode).runOn shortBus fastHandler ()
    let read := (executeArm 0xE10F0000).runOn shortBus run.value.2 ()
    ArmKind.ofOpcode opcode = .writeStatus ∧
      (ArmInstruction.condition opcode).holds fastHandler.cpsr.flags = true ∧
      run.value.2.cpsr.toWord = 0x1F ∧ run.value.2.readIn .fiq .sp = fastHandler.read .sp ∧
      read.value.2.read (.low 0) = 0x1F := by
  intro opcode run read
  have hk : ArmKind.ofOpcode opcode = .writeStatus := by decide
  have hc : (ArmInstruction.condition opcode).holds fastHandler.cpsr.flags = true := by decide
  obtain ⟨-, -, hcurrent, hread, -⟩ := statusTransfer_exact fastHandler hk hc shortBus ()
  obtain ⟨hresult, hreplaced⟩ := (hcurrent (by decide)).2 fun h => h.2.2 .system (by decide)
  have hdelivered := hread run.value.2 (Prod.ext hresult rfl) 0xE10F0000 (by decide) (by decide)
    (by decide) ()
  refine ⟨hk, hc, ?_, ?_, ?_⟩
  · exact hreplaced.current.trans (by decide)
  · exact hreplaced.registers .fiq (by decide)
  · exact hdelivered.2.trans (by decide)

end Armv4t

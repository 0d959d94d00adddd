import Armv4t.Config
import Armv4t.Memory
import Armv4t.Proofs.Congruence
import Armv4t.Proofs.Snapshot

/-!
# Stored copies that nothing reads

The stored copies that belong to the current mode, and the saved status of the user bank, hold
values that nothing reads before they are replaced.  `Cpu.Equivalent` is agreement on everything
else.  It is a relation that every lookup is blind to and every update keeps
(`Cpu.modeRelation_equivalent`), so every call of the processor's operations keeps it
(`Call.related_perform`), and so does every sequence of calls: **equivalent processors cannot be
told apart** (`indistinguishable_of_equivalent`).
-/

namespace Armv4t

namespace Cpu

/-- Agreement on the status, on the registers of the current mode, on every register as any mode
sees it, and on the saved status of every bank that has one. -/
structure Equivalent (c d : Cpu) : Prop where
  cpsr : c.cpsr = d.cpsr
  read (register : Register) : c.read register = d.read register
  readIn (mode : Mode) (register : Register) : c.readIn mode register = d.readIn mode register
  spsrs {bank : Bank} (hb : bank ≠ .user) : c.spsrs.get bank = d.spsrs.get bank

namespace Equivalent

variable {c d : Cpu}

theorem mode (h : c.Equivalent d) : c.mode = d.mode :=
  congrArg Psr.mode h.cpsr

/-- The registers of the current mode need no agreement of their own. -/
theorem of_cells (hc : c.cpsr = d.cpsr)
    (hr : ∀ mode register, c.readIn mode register = d.readIn mode register)
    (hs : ∀ bank, bank ≠ .user → c.spsrs.get bank = d.spsrs.get bank) : c.Equivalent d := by
  have hm : c.mode = d.mode := congrArg Psr.mode hc
  refine ⟨hc, fun register => ?_, hr, fun hb => hs _ hb⟩
  rw [← readIn_mode, ← readIn_mode, hm]
  exact hr d.mode register

theorem refl (c : Cpu) : c.Equivalent c :=
  ⟨rfl, fun _ => rfl, fun _ _ => rfl, fun _ => rfl⟩

theorem spsr? (h : c.Equivalent d) : c.spsr? = d.spsr? := by
  unfold Cpu.spsr?
  rw [h.mode]
  split_ifs with hu
  · rfl
  · rw [h.spsrs hu]

theorem write (h : c.Equivalent d) {register : Register} (hr : register ≠ .pc) (value : Word) :
    (c.write register value).Equivalent (d.write register value) := by
  apply of_cells
  · rw [cpsr_write, cpsr_write, h.cpsr]
  · intro mode read
    rw [readIn_write c value hr, readIn_write d value hr, h.mode, h.readIn]
  · intro bank hb
    rw [spsrs_write, spsrs_write, h.spsrs hb]

theorem withFlags (h : c.Equivalent d) (flags : Flags) :
    (c.withFlags flags).Equivalent (d.withFlags flags) := by
  apply of_cells
  · unfold Cpu.withFlags
    rw [h.cpsr]
  · intro mode read
    rw [readIn_withFlags, readIn_withFlags, h.readIn]
  · intro bank hb
    exact h.spsrs hb

theorem withPc (h : c.Equivalent d) (pc : Word) :
    { c with pc := pc }.Equivalent { d with pc := pc } := by
  apply of_cells
  · exact h.cpsr
  · intro mode read
    by_cases hr : read = .pc
    · subst hr
      rfl
    · rw [readIn_withPc c pc mode hr, readIn_withPc d pc mode hr, h.readIn]
  · intro bank hb
    exact h.spsrs hb

theorem withInstructionSet (h : c.Equivalent d) (set : InstructionSet) :
    (c.withInstructionSet set).Equivalent (d.withInstructionSet set) := by
  apply of_cells
  · unfold Cpu.withInstructionSet
    rw [h.cpsr]
  · intro mode read
    rw [readIn_withInstructionSet, readIn_withInstructionSet, h.readIn]
  · intro bank hb
    exact h.spsrs hb

theorem withSpsr (h : c.Equivalent d) (value : Word) :
    (c.withSpsr value).Equivalent (d.withSpsr value) := by
  apply of_cells
  · exact h.cpsr
  · intro mode read
    rw [readIn_withSpsr, readIn_withSpsr, h.readIn]
  · intro bank hb
    rw [get_spsrs_withSpsr, get_spsrs_withSpsr, h.mode, h.spsrs hb]

theorem writeUser (h : c.Equivalent d) {register : Register} (hr : register ≠ .pc)
    (value : Word) :
    (c.writeIn .user register value).Equivalent (d.writeIn .user register value) := by
  apply of_cells
  · rw [cpsr_writeIn, cpsr_writeIn, h.cpsr]
  · intro mode read
    rw [readIn_writeIn c .user value hr, readIn_writeIn d .user value hr, h.readIn]
  · intro bank hb
    rw [spsrs_writeIn, spsrs_writeIn, h.spsrs hb]

/-- A change of mode stores the view before it is replaced and loads none of the copies that the two
processors may disagree on. -/
theorem withPsr (h : c.Equivalent d) (psr : Psr) :
    (c.withPsr psr).Equivalent (d.withPsr psr) := by
  apply of_cells
  · rw [cpsr_withPsr, cpsr_withPsr]
  · intro mode read
    rw [readIn_withPsr, readIn_withPsr, h.readIn]
  · intro bank hb
    rw [spsrs_withPsr, spsrs_withPsr, h.spsrs hb]

end Equivalent

/-- The processor with other values in the stored copies that belong to the current mode and in the
saved status of the user bank. -/
def withStale (cpu : Cpu) (high : Vector Word 5) (pair : StackPair) (saved : Word) : Cpu :=
  { cpu with
    commonHigh := if cpu.mode = .fiq then cpu.commonHigh else high
    fiqHigh := if cpu.mode = .fiq then high else cpu.fiqHigh
    bankedStacks := cpu.bankedStacks.set cpu.mode.bank pair
    spsrs := cpu.spsrs.set .user saved }

/-- Processors that differ in stale storage alone are equivalent. -/
theorem equivalent_withStale (cpu : Cpu) (high : Vector Word 5) (pair : StackPair)
    (saved : Word) : cpu.Equivalent (cpu.withStale high pair saved) := by
  -- a mode that shares its cells with the current mode reads the view, any other its own copy
  have hhigh (mode : Mode) : cpu.highIn mode = (cpu.withStale high pair saved).highIn mode := by
    by_cases hc : cpu.mode = .fiq <;> by_cases hm : mode = .fiq <;>
      simp_all [highIn, withStale, Cpu.mode]
  have hstack (mode : Mode) : cpu.stackIn mode = (cpu.withStale high pair saved).stackIn mode := by
    by_cases hb : mode.bank = cpu.mode.bank <;>
      simp_all [stackIn, withStale, Cpu.mode, Banked.get_set]
  apply Equivalent.of_cells
  · rfl
  · intro mode register
    cases register with
    | high position => exact congrArg (·.get position) (hhigh mode)
    | sp => exact congrArg StackPair.sp (hstack mode)
    | lr => exact congrArg StackPair.lr (hstack mode)
    | low position => rfl
    | pc => rfl
  · intro bank hb
    simp only [withStale, Banked.get_set, if_neg hb]

/-- No instruction can tell equivalent processors apart. -/
theorem modeRelation_equivalent : ModeRelation Equivalent where
  read h register := h.read register
  flags h := congrArg Psr.flags h.cpsr
  write h := h.write
  withFlags h := h.withFlags
  cpsr h := h.cpsr
  spsr? h := h.spsr?
  readUser h register := h.readIn .user register
  withPc h := h.withPc
  withInstructionSet h := h.withInstructionSet
  withSpsr h := h.withSpsr
  writeUser h := h.writeUser
  -- a restored status needs no validity here: every change of status keeps equivalence
  withSaved h _ _ psr _ := h.withPsr psr
  withPsr h := h.withPsr

end Cpu

/-! ### Sequences of calls -/

/-- The operations through which a processor is driven from outside. -/
inductive Call where
  | executeArm (opcode : Word)
  | executeThumb (opcode : Halfword)
  /-- Fetch the next instruction and execute it. -/
  | step
  | raise (exception : Exception)
  | requestInterrupt (line : InterruptLine)
  | reset
deriving DecidableEq, Repr

/-- Performs a call.  A request for an interrupt returns whether it was taken, the other calls
return nothing. -/
def Call.perform : Call → StepM (Option Bool)
  | executeArm opcode => do
    Armv4t.executeArm opcode
    return none
  | executeThumb opcode => do
    Armv4t.executeThumb opcode
    return none
  | step => do
    Armv4t.step
    return none
  | raise exception => do
    CpuM.raise exception
    return none
  | requestInterrupt line => do
    let taken ← CpuM.requestInterrupt line
    return some taken
  | reset => do
    set Cpu.reset
    return none

/-- Performs calls one after the other, going on after a fault, and yields what each returned. -/
def performAll : List Call → CpuM (List (Except Fault (Option Bool)))
  | [] => return []
  | call :: rest => do
    let result ← call.perform.run
    let results ← performAll rest
    return result :: results

/-- Performs calls from a processor over a bus. -/
def performOn {σ : Type} (bus : Bus σ) (calls : List Call) (cpu : Cpu) (state : σ) :
    BusRun σ (List (Except Fault (Option Bool)) × Cpu) :=
  ((performAll calls).run cpu).run bus state

variable {c d : Cpu}

/-- One call keeps equivalence. -/
theorem Call.related_perform (h : c.Equivalent d) (call : Call) :
    StepM.Related Cpu.Equivalent c d call.perform call.perform := by
  have M := Cpu.modeRelation_equivalent
  cases call with
  | executeArm opcode =>
    exact StepM.related_bind (ProgramStep.related_perform M h (.given (.arm opcode)))
      fun _ _ _ h => StepM.related_pure h none
  | executeThumb opcode =>
    exact StepM.related_bind (ProgramStep.related_perform M h (.given (.thumb opcode)))
      fun _ _ _ h => StepM.related_pure h none
  | step =>
    exact StepM.related_bind (ProgramStep.related_perform M h .fetched) fun _ _ _ h =>
      StepM.related_pure h none
  | raise exception =>
    exact StepM.related_bind (StepM.related_lift (CpuM.related_raise M h exception))
      fun _ _ _ h => StepM.related_pure h none
  | requestInterrupt line =>
    exact StepM.related_bind (StepM.related_lift (CpuM.related_requestInterrupt M h line))
      fun taken _ _ h => StepM.related_pure h (some taken)
  -- a reset forgets both processors
  | reset =>
    exact StepM.related_bind (StepM.related_set (.refl Cpu.reset)) fun _ _ _ h =>
      StepM.related_pure h none

/-- A sequence of calls keeps equivalence, by induction on the sequence. -/
theorem related_performAll (h : c.Equivalent d) (calls : List Call) :
    CpuM.Related Cpu.Equivalent c d (performAll calls) (performAll calls) := by
  induction calls generalizing c d with
  | nil => exact CpuM.related_pure h []
  | cons call rest ih =>
    -- a fault ends the call and not the sequence, so the rest goes on from related processors
    refine CpuM.related_bind (Call.related_perform h call) fun result _ _ h => ?_
    exact CpuM.related_bind (ih h) fun results _ _ h => CpuM.related_pure h (result :: results)

/-- Two runs that an observer cannot tell apart: the same results and faults, the same events and
log records in the same order, and equivalent processors at the end. -/
def Indistinguishable {σ τ α : Type} (states : σ → τ → Prop) (left : BusRun σ (α × Cpu))
    (right : BusRun τ (α × Cpu)) : Prop :=
  left.Matches Eq (fun a b => a.1 = b.1 ∧ a.2.Equivalent b.2) states right

/-- Equivalent processors make indistinguishable runs over buses that answer alike. -/
theorem indistinguishable_performOn {σ τ : Type} {bus : Bus σ} {bus' : Bus τ}
    {states : σ → τ → Prop} (alike : bus.Alike bus' states) (h : c.Equivalent d)
    (calls : List Call) {s : σ} {t : τ} (hs : states s t) :
    Indistinguishable states (performOn bus calls c s) (performOn bus' calls d t) :=
  (related_performAll h calls).run alike hs

/-- **Stale storage is never observable.**  Over buses that answer alike, equivalent processors make
indistinguishable runs of any sequence of calls.  At the end of any such run, the processor read
back from a snapshot goes on like the one that the snapshot was taken of, and like the other. -/
theorem indistinguishable_of_equivalent {σ τ : Type} {bus : Bus σ} {bus' : Bus τ}
    {states : σ → τ → Prop} (alike : bus.Alike bus' states) (h : c.Equivalent d)
    (calls : List Call) {s : σ} {t : τ} (hs : states s t) :
    let left := performOn bus calls c s
    let right := performOn bus' calls d t
    Indistinguishable states left right ∧
      ∃ copy, Snapshot.ofValue (Snapshot.toValue left.value.2) = .ok copy ∧
        ∀ more : List Call,
          performOn bus more copy left.state = performOn bus more left.value.2 left.state ∧
          Indistinguishable states (performOn bus more copy left.state)
            (performOn bus' more right.value.2 right.state) := by
  intro left right
  have hrun : Indistinguishable states left right := indistinguishable_performOn alike h calls hs
  -- a processor is the copy of its own snapshot
  refine ⟨hrun, left.value.2, Snapshot.ofValue_toValue left.value.2, fun more => ⟨rfl, ?_⟩⟩
  exact indistinguishable_performOn alike hrun.value.2 more hrun.state

/-- A reset processor with other values in its stale storage, through a mode change, a taken and a
refused instruction and a reset. -/
theorem indistinguishable_withStale_reset :
    let memory : Memory := { regions := [⟨0, 64, false⟩] }
    let calls : List Call :=
      [.executeArm 0xE10F1000, .raise .fastInterruptRequest, .step, .executeThumb 0xB400,
        .requestInterrupt .irq, .reset, .executeArm 0xE8FD8000]
    Indistinguishable Eq (performOn Memory.bus calls Cpu.reset memory)
      (performOn Memory.bus calls
        (Cpu.reset.withStale (.replicate 5 1) ⟨2, 3⟩ 4) memory) := by
  intro memory calls
  exact (indistinguishable_of_equivalent (Bus.alike_self Memory.bus)
    (Cpu.equivalent_withStale Cpu.reset (.replicate 5 1) ⟨2, 3⟩ 4) calls rfl).1

end Armv4t

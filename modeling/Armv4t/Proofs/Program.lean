import Armv4t.Proofs.Congruence
import Armv4t.Proofs.Faults

/-!
# Runs of programs

Two runs of the same steps, from related processors over buses that answer alike, are alike as long
as no step raises a software interrupt: `ProgramStep.runsAlike_perform` is the statement for one
step and `runsAlike_runSteps` for a run of any length.  A relation that status writes keep is
enough; it need not be kept by every change of mode.
-/

namespace Armv4t

/-- Two runs with the same results, faults, events and log records, which leave related processors
and related states of their buses. -/
def RunsAlike {σ τ α : Type} (rel : Cpu → Cpu → Prop) (states : σ → τ → Prop)
    (left : BusRun σ (α × Cpu)) (right : BusRun τ (α × Cpu)) : Prop :=
  left.Matches Eq (fun a b => a.1 = b.1 ∧ rel a.2 b.2) states right

variable {σ τ α β : Type} {bus : Bus σ} {bus' : Bus τ} {states : σ → τ → Prop} {s : σ} {t : τ}
  {rel : Cpu → Cpu → Prop} {c d : Cpu}

/-- Computations in sequence make alike runs when their first parts do, and so do their second parts
from wherever the first have come to. -/
theorem StepM.runsAlike_bind {x y : StepM α} {f g : α → StepM β}
    (h : RunsAlike rel states (x.runOn bus c s) (y.runOn bus' d t))
    (k : ∀ a c' d', (x.runOn bus c s).value = (.ok a, c') →
      (y.runOn bus' d t).value = (.ok a, d') → rel c' d' →
        RunsAlike rel states ((f a).runOn bus c' (x.runOn bus c s).state)
          ((g a).runOn bus' d' (y.runOn bus' d t).state)) :
    RunsAlike rel states ((x >>= f).runOn bus c s) ((y >>= g).runOn bus' d t) := by
  obtain ⟨result, c', hx⟩ : ∃ result c', (x.runOn bus c s).value = (result, c') := ⟨_, _, rfl⟩
  obtain ⟨result', d', hy⟩ : ∃ result d', (y.runOn bus' d t).value = (result, d') := ⟨_, _, rfl⟩
  obtain ⟨hresult, hrel⟩ := h.value
  rw [hx, hy] at hresult hrel
  obtain rfl : result = result' := hresult
  -- the two runs fail alike, or go on with one value
  cases result with
  | error fault =>
    rw [runOn_bind_of_error hx, runOn_bind_of_error hy]
    exact ⟨⟨rfl, hrel⟩, h.state, h.events, h.log⟩
  | ok a =>
    have hk := k a c' d' hx hy hrel
    rw [runOn_bind_of_ok hx, runOn_bind_of_ok hy]
    exact ⟨hk.value, hk.state, congrArg₂ _ h.events hk.events, List.rel_append h.log hk.log⟩

/-- Obtaining an opcode leaves the processor as it is. -/
theorem ProgramStep.value_opcode (step : ProgramStep) :
    (step.opcode.runOn bus c s).value.2 = c :=
  (BusProgram.Yields.run (step.yields_opcode : StepM.Yields c _ _) bus s).1

/-- A step that raises no software interrupt makes alike runs. -/
theorem ProgramStep.runsAlike_perform (S : Cpu.StatusRelation rel) (alike : bus.Alike bus' states)
    (h : rel c d) (hs : states s t) {step : ProgramStep} (hw : ¬step.CallsSupervisor bus c s) :
    RunsAlike rel states (step.perform.runOn bus c s) (step.perform.runOn bus' d t) := by
  rw [perform_eq]
  have hfetch : RunsAlike rel states (step.opcode.runOn bus c s) (step.opcode.runOn bus' d t) :=
    (related_opcode S.toBankRelation h step).run alike hs
  refine StepM.runsAlike_bind hfetch fun opcode c' d' hc _ h' => ?_
  -- whether the opcode raises an interrupt depends on the flags, which the fetch has left alone
  have hv : (step.opcode.runOn bus c s).value.2 = c := step.value_opcode
  rw [hc] at hv
  obtain rfl : c = c' := hv.symm
  have hcall : ¬opcode.CallsSupervisor c.cpsr.flags := fun hcall => hw ⟨opcode, by rw [hc], hcall⟩
  exact (Opcode.related_execute S (fun hm => absurd hm hcall) h').run alike hfetch.state

/-! ### Runs of many steps -/

/-- A computation in sequence runs its first part and then its second. -/
theorem CpuM.run_bind (bus : Bus σ) (x : CpuM α) (f : α → CpuM β) (c : Cpu) (s : σ) :
    let first := (x.run c).run bus s
    let second := ((f first.value.1).run first.value.2).run bus first.state
    ((x >>= f).run c).run bus s =
      ⟨second.value, second.state, first.events ++ second.events, first.log ++ second.log⟩ :=
  BusProgram.run_bind bus (x.run c) (fun ended => (f ended.1).run ended.2) s

/-- A run of steps is a run of the first and then of the others, also after a fault. -/
theorem runSteps_cons (bus : Bus σ) (step : ProgramStep) (rest : List ProgramStep) (c : Cpu)
    (s : σ) :
    let first := step.perform.runOn bus c s
    let others := runSteps bus rest first.value.2 first.state
    runSteps bus (step :: rest) c s =
      ⟨(first.value.1 :: others.value.1, others.value.2), others.state,
        first.events ++ others.events, first.log ++ others.log⟩ := by
  intro first others
  unfold runSteps
  rw [List.mapM_cons, CpuM.run_bind, CpuM.run_bind]
  -- what runs last adds no events
  have hnil : others.events ++ [] = others.events ∧ others.log ++ [] = others.log :=
    ⟨List.append_nil _, List.append_nil _⟩
  exact congrArg₂ (BusRun.mk _ _) (congrArg _ hnil.1) (congrArg _ hnil.2)

/-- What is true of a run without a software interrupt is true of its beginnings. -/
theorem WithoutSupervisorCall.of_isPrefix {taken steps : List ProgramStep} (hp : taken <+: steps)
    (h : WithoutSupervisorCall bus steps c s) : WithoutSupervisorCall bus taken c s := by
  induction taken generalizing steps c s with
  | nil => trivial
  | cons step rest ih =>
    obtain ⟨more, rfl⟩ := hp
    exact ⟨h.1, ih ⟨more, rfl⟩ h.2⟩

/-- Runs without a software interrupt are alike, by induction on the steps. -/
theorem runsAlike_runSteps (S : Cpu.StatusRelation rel) (alike : bus.Alike bus' states)
    (h : rel c d) (hs : states s t) {steps : List ProgramStep}
    (hw : WithoutSupervisorCall bus steps c s) :
    RunsAlike rel states (runSteps bus steps c s) (runSteps bus' steps d t) := by
  induction steps generalizing c d s t with
  | nil => exact ⟨⟨rfl, h⟩, hs, rfl, .nil⟩
  | cons step rest ih =>
    have hfirst := ProgramStep.runsAlike_perform S alike h hs hw.1
    have hrest := ih hfirst.value.2 hfirst.state hw.2
    rw [runSteps_cons, runSteps_cons]
    exact ⟨⟨congrArg₂ _ hfirst.value.1 hrest.value.1, hrest.value.2⟩, hrest.state,
      congrArg₂ _ hfirst.events hrest.events, List.rel_append hfirst.log hrest.log⟩

end Armv4t

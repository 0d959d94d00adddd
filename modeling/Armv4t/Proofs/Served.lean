import Armv4t.Proofs.Events

/-!
# Runs whose accesses the bus serves

A bus may fail any access, and an instruction then stops.  `StepM.WhenServed c x post` says what
happens otherwise: on every branch on which the bus answers each access of the computation `x`, the
computation comes to its end, and `post` holds there of events, value and processor.  Nothing is
supposed of the bus beyond the accesses that are made; a bus that never fails one serves them all
(`Bus.Serves.served`).
-/

namespace Armv4t

variable {σ α β : Type}

/-! ### Accesses that do not fail -/

/-- The bus has not failed the access.  What is no access cannot fail. -/
def BusEvent.Served : BusEvent → Prop
  | ⟨.read _ _, answer⟩ => ∃ value, answer = .ok value
  | ⟨.write _ _ _, answer⟩ => answer = .ok ()
  | ⟨.charge _, _⟩ => True
  | ⟨.branch _ _, _⟩ => True

/-- A bus that fails no access. -/
def Bus.Serves (bus : Bus σ) : Prop :=
  ∀ request state, BusEvent.Served ⟨request, (bus.answer request state).1⟩

/-- On a bus that fails no access, every access of a run is served. -/
theorem Bus.Serves.served {bus : Bus σ} (h : bus.Serves) (program : BusProgram α) (state : σ) :
    ∀ event ∈ (program.run bus state).events, event.Served := by
  induction program generalizing state with
  | pure value =>
    intro event he
    nomatch he
  | request asked resume ih =>
    intro event he
    -- the request itself was served, and the rest is a run from the next state
    rcases List.mem_cons.1 he with rfl | he
    · exact h asked state
    · exact ih _ _ event he
  | note record rest ih =>
    intro event he
    exact ih state event he

namespace StepM

variable {c : Cpu}

/-! ### What follows when all accesses are served -/

/-- When the bus serves every access of a computation, it comes to its end, and `post` holds there
of events, value and processor. -/
def WhenServed (c : Cpu) (x : StepM α) (post : List BusEvent → α → Cpu → Prop) : Prop :=
  Yields c x fun events result d =>
    (∀ event ∈ events, event.Served) → ∃ a, result = .ok a ∧ post events a d

variable {post : List BusEvent → α → Cpu → Prop} {post' : List BusEvent → β → Cpu → Prop}

theorem WhenServed.mono {mid : List BusEvent → α → Cpu → Prop} {x : StepM α}
    (h : WhenServed c x mid) (imp : ∀ events a d, mid events a d → post events a d) :
    WhenServed c x post := by
  refine BusProgram.Yields.mono h ?_
  intro events ended hended hserved
  obtain ⟨a, hr, hp⟩ := hended hserved
  exact ⟨a, hr, imp events a _ hp⟩

/-- A run whose accesses are all served comes to its end. -/
theorem WhenServed.run {x : StepM α} (h : WhenServed c x post) {bus : Bus σ} {state : σ}
    (hs : ∀ event ∈ (x.runOn bus c state).events, event.Served) :
    ∃ a, (x.runOn bus c state).value.1 = .ok a ∧
      post (x.runOn bus c state).events a (x.runOn bus c state).value.2 := by
  have hrun := BusProgram.Yields.run h bus state
  exact hrun hs

theorem whenServed_pure {a : α} (h : post [] a c) : WhenServed c (pure a) post := by
  intro _
  exact ⟨a, rfl, h⟩

theorem whenServed_bind {x : StepM α} {f : α → StepM β} (h : WhenServed c x post)
    (k : ∀ events a d, post events a d →
      WhenServed d (f a) fun more => post' (events ++ more)) :
    WhenServed c (x >>= f) post' := by
  refine yields_bind h ?_ ?_
  · intro events a d hmid
    by_cases hserved : ∀ event ∈ events, event.Served
    · obtain ⟨_, ⟨⟩, hp⟩ := hmid hserved
      refine BusProgram.Yields.mono (k events a d hp) ?_
      intro more ended hended hall
      exact hended fun event he => hall event (List.mem_append_right events he)
    · -- an access of the first part has failed, so that nothing is asked of the end
      refine BusProgram.Yields.mono (BusProgram.Always.yields (BusProgram.always_true _)) ?_
      intro more ended _ hall
      exact absurd (fun event he => hall event (List.mem_append_left more he)) hserved
  · intro events fault d hmid hserved
    obtain ⟨_, ⟨⟩, _⟩ := hmid hserved

theorem whenServed_get_bind {f : Cpu → StepM β} (h : WhenServed c (f c) post') :
    WhenServed c (get >>= f) post' := h

theorem whenServed_modify_bind {g : Cpu → Cpu} {f : Unit → StepM β}
    (h : WhenServed (g c) (f ()) post') : WhenServed c (modify g >>= f) post' := h

/-- A computation that cannot stop. -/
theorem whenServed_lift {x : CpuM α} (h : CpuM.Yields c x post) :
    WhenServed c (liftM x : StepM α) post := by
  show CpuM.Yields c (x >>= fun a => pure (Except.ok a)) fun events result d =>
    (∀ event ∈ events, event.Served) → ∃ a, result = .ok a ∧ post events a d
  refine CpuM.yields_bind h ?_
  intro events a d hd _
  refine ⟨a, rfl, ?_⟩
  rwa [List.append_nil]

theorem whenServed_charge_bind {cycles : Nat} {f : Unit → StepM β}
    (h : WhenServed c (f ()) fun events => post' (.charge cycles :: events)) :
    WhenServed c (liftM (CpuM.charge cycles) >>= f) post' := by
  intro _
  refine BusProgram.Yields.mono h ?_
  intro events ended hended hserved
  exact hended (List.forall_mem_cons.1 hserved).2

/-- A served read has a value, and leaves the processor as it is. -/
theorem whenServed_read (width : Width) (address : Word) :
    WhenServed c (read width address) fun events value d =>
      events = [.read width address (.ok value)] ∧ d = c := by
  -- the two branches are the two answers of the bus
  rintro (reason | value) hserved
  · obtain ⟨_, ⟨⟩⟩ := hserved _ List.mem_cons_self
  · exact ⟨value, rfl, rfl, rfl⟩

end StepM

end Armv4t

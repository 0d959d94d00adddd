import Armv4t.Proofs.Events

/-!
# Runs that succeed

`StepM.Succeeds bus c state x post` is total correctness: over the bus, from the processor `c` and
the bus state `state`, the computation `x` comes to its end, and value, processor and bus state
satisfy `post`.  What the bus answers is in view, so that a computation can be followed over a bus
of which only some answers are known.  A computation that does not depend on answers succeeds as
its events say (`succeeds_of_yields`).
-/

namespace Armv4t

variable {σ α β : Type} {bus : Bus σ} {c : Cpu} {state : σ}

/-- The state in which a bus is left when it has answered the requests of some events. -/
def Bus.after (bus : Bus σ) (state : σ) (events : List BusEvent) : σ :=
  events.foldl (fun state event => (bus.answer event.request state).2) state

/-- A run leaves the bus as answering the requests of its events does. -/
theorem BusProgram.state_run (bus : Bus σ) (program : BusProgram α) (state : σ) :
    (program.run bus state).state = bus.after state (program.run bus state).events := by
  induction program generalizing state with
  | pure value => rfl
  | request asked resume ih => exact ih _ _
  | note record rest ih => exact ih _

namespace StepM

/-- From a processor and a bus state, a computation comes to its end, and `post` holds there of its
value, the processor and the bus state. -/
def Succeeds (bus : Bus σ) (c : Cpu) (state : σ) (x : StepM α) (post : α → Cpu → σ → Prop) :
    Prop :=
  ∃ a d, (x.runOn bus c state).value = (.ok a, d) ∧ post a d (x.runOn bus c state).state

variable {post : α → Cpu → σ → Prop} {post' : β → Cpu → σ → Prop}

theorem Succeeds.mono {mid : α → Cpu → σ → Prop} {x : StepM α} (h : Succeeds bus c state x mid)
    (imp : ∀ a d t, mid a d t → post a d t) : Succeeds bus c state x post := by
  obtain ⟨a, d, hv, hp⟩ := h
  exact ⟨a, d, hv, imp a d _ hp⟩

/-- A run that succeeds has a value, and `post` holds where it ends. -/
theorem Succeeds.run {x : StepM α} (h : Succeeds bus c state x post) :
    ∃ a, (x.runOn bus c state).value.1 = .ok a ∧
      post a (x.runOn bus c state).value.2 (x.runOn bus c state).state := by
  obtain ⟨a, d, hv, hp⟩ := h
  rw [hv]
  exact ⟨a, rfl, hp⟩

/-- What a computation does after a cycle and a log record, it does when the cycle has passed. -/
theorem succeeds_of_run_eq {x y : StepM α} {cycles : Nat} {record : LogRecord}
    (htree : x.run.run c = .request (.charge cycles) fun _ => .note record (y.run.run c))
    (h : Succeeds bus c (bus.answer (.charge cycles) state).2 y post) :
    Succeeds bus c state x post := by
  obtain ⟨a, d, hv, hp⟩ := h
  -- what is noted and charged goes before, and the run of `y` decides the rest
  have hrun : x.runOn bus c state = (x.run.run c).run bus state := rfl
  rw [htree] at hrun
  refine ⟨a, d, ?_, ?_⟩
  · rw [hrun]
    exact hv
  · rw [hrun]
    exact hp

theorem succeeds_pure {a : α} (h : post a c state) : Succeeds bus c state (pure a) post :=
  ⟨a, c, rfl, h⟩

theorem succeeds_bind {x : StepM α} {f : α → StepM β} (h : Succeeds bus c state x post)
    (k : ∀ a d t, post a d t → Succeeds bus d t (f a) post') :
    Succeeds bus c state (x >>= f) post' := by
  obtain ⟨a, d, hv, hp⟩ := h
  obtain ⟨b, e, hw, hq⟩ := k a d _ hp
  have hrun := runOn_bind_of_ok hv f
  refine ⟨b, e, ?_, ?_⟩
  · rw [hrun]
    exact hw
  · rw [hrun]
    exact hq

theorem succeeds_get_bind {f : Cpu → StepM β} (h : Succeeds bus c state (f c) post') :
    Succeeds bus c state (get >>= f) post' := h

theorem succeeds_modify_bind {g : Cpu → Cpu} {f : Unit → StepM β}
    (h : Succeeds bus (g c) state (f ()) post') : Succeeds bus c state (modify g >>= f) post' := h

theorem succeeds_charge_bind {cycles : Nat} {f : Unit → StepM β}
    (h : Succeeds bus c (bus.answer (.charge cycles) state).2 (f ()) post') :
    Succeeds bus c state (liftM (CpuM.charge cycles) >>= f) post' := h

/-- A read that the bus answers with a value. -/
theorem succeeds_read {width : Width} {address : Word} {value : BitVec width.bits}
    (hv : (bus.answer (.read width address) state).1 = .ok value) :
    Succeeds bus c state (read width address) fun a d t =>
      a = value ∧ d = c ∧ t = (bus.answer (.read width address) state).2 := by
  generalize hanswer : bus.answer (.read width address) state = answered at hv ⊢
  obtain ⟨answer, next⟩ := answered
  dsimp only at hv
  subst hv
  -- the answer is in hand, so that the run is a single event
  have hrun : (read width address).runOn bus c state =
      ⟨(.ok value, c), next, [.read width address (.ok value)], []⟩ := by
    change BusProgram.run bus (.request (.read width address) _) state = _
    unfold BusProgram.run
    rw [hanswer]
    rfl
  refine ⟨value, c, ?_, rfl, rfl, ?_⟩
  · rw [hrun]
  · rw [hrun]

/-- A write that the bus takes. -/
theorem succeeds_write {width : Width} {address : Word} {value : BitVec width.bits}
    (hv : (bus.answer (.write width address value) state).1 = .ok ()) :
    Succeeds bus c state (write width address value) fun _ d t =>
      d = c ∧ t = (bus.answer (.write width address value) state).2 := by
  generalize hanswer : bus.answer (.write width address value) state = answered at hv ⊢
  obtain ⟨answer, next⟩ := answered
  dsimp only at hv
  subst hv
  -- as for a read, with nothing but the acknowledgement for an answer
  have hrun : (write width address value).runOn bus c state =
      ⟨(.ok (), c), next, [.write width address value (.ok ())], []⟩ := by
    change BusProgram.run bus (.request (.write width address value) _) state = _
    unfold BusProgram.run
    rw [hanswer]
    rfl
  refine ⟨(), c, ?_, rfl, ?_⟩
  · rw [hrun]
  · rw [hrun]

/-- A computation succeeds when it comes to its end on every branch of its requests, the bus being
left as its events leave it. -/
theorem succeeds_of_yields {x : StepM α}
    (h : Yields c x fun events result d =>
      ∃ a, result = .ok a ∧ post a d (bus.after state events)) :
    Succeeds bus c state x post := by
  have hrun := BusProgram.Yields.run h bus state
  obtain ⟨a, hr, hp⟩ := hrun
  refine ⟨a, _, Prod.ext hr rfl, ?_⟩
  rw [← BusProgram.state_run] at hp
  exact hp

theorem succeeds_lift {x : CpuM α}
    (h : CpuM.Yields c x fun events a d => post a d (bus.after state events)) :
    Succeeds bus c state (liftM x) post := by
  apply succeeds_of_yields
  apply yields_lift
  exact BusProgram.Yields.mono h fun _ ended hd => ⟨ended.1, rfl, hd⟩

end StepM

end Armv4t

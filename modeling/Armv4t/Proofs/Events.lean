import Armv4t.Proofs.Ensures

/-!
# What a computation does to its bus

`StepM.Yields c x post` is `StepM.Ensures c x post` with the events in view: on every branch of its
requests, the computation `x`, started on the processor `c`, puts requests and ends with a result
and a processor that together satisfy `post`.  `StepM.Stops c x post` asks this only of the branches
on which the computation stops with a fault.  Its rules follow a computation up to the point where
it can no longer stop (`stops_of_neverStops`); what comes later does not matter.
`StepM.Ends c x post` asks it of the other branches, and its rules follow a computation to its end.
-/

namespace Armv4t

/-! ### Kinds of requests -/

namespace BusRequest

/-- Cycles that pass inside the processor, of which the bus is only told. -/
def IsInternal : BusRequest → Prop
  | charge _ => True
  | read .. | write .. | branch .. => False

/-- The notice that execution goes on elsewhere. -/
def IsBranch : BusRequest → Prop
  | branch .. => True
  | read .. | write .. | charge _ => False

theorem IsInternal.not_isBranch {request : BusRequest} (h : request.IsInternal) :
    ¬request.IsBranch := by
  cases request with
  | charge cycles => exact id
  | _ => exact h.elim

end BusRequest

/-! ### Events by kind -/

namespace BusEvent

/-- A read with its answer. -/
def read (width : Width) (address : Word) (answer : Except BusFault (BitVec width.bits)) :
    BusEvent :=
  ⟨.read width address, answer⟩

/-- A write with its answer. -/
def write (width : Width) (address : Word) (value : BitVec width.bits)
    (answer : Except BusFault Unit) : BusEvent :=
  ⟨.write width address value, answer⟩

/-- The passing of internal cycles. -/
def charge (cycles : Nat) : BusEvent :=
  ⟨.charge cycles, ()⟩

/-- The notice of a branch. -/
def branch (target : Word) (set : InstructionSet) : BusEvent :=
  ⟨.branch target set, ()⟩

end BusEvent

/-! ### Events on the branches of a program -/

namespace BusProgram

variable {α β : Type}

/-- What holds of the events and of the value at the end of every branch of a computation. -/
def Yields : BusProgram α → (List BusEvent → α → Prop) → Prop
  | pure value, holds => holds [] value
  | request asked resume, holds =>
    ∀ answer, (resume answer).Yields fun events => holds (⟨asked, answer⟩ :: events)
  | note _ rest, holds => rest.Yields holds

variable {holds holds' : List BusEvent → α → Prop} {program : BusProgram α}

theorem Yields.mono (h : program.Yields holds)
    (imp : ∀ events value, holds events value → holds' events value) :
    program.Yields holds' := by
  -- along the tree, with every answer of a request and its event in front
  induction program generalizing holds holds' with
  | pure value => exact imp _ _ h
  | request asked resume ih => exact fun answer => ih answer (h answer) fun events => imp _
  | note record rest ih => exact ih h imp

/-- The events of a computation in sequence are those of its first part and then those of its
second. -/
theorem yields_bind {next : α → BusProgram β} {after : List BusEvent → β → Prop} :
    (program.bind next).Yields after ↔
      program.Yields fun events value =>
        (next value).Yields fun more => after (events ++ more) := by
  -- for every `after`, which grows by the event of each request
  induction program generalizing after with
  | pure value => rfl
  | request asked resume ih => exact forall_congr' fun answer => ih answer
  | note record rest ih => exact ih

/-- What holds of the end of every branch holds whatever the events before it. -/
theorem Always.yields {ends : α → Prop} (h : program.Always ends) :
    program.Yields fun _ => ends := by
  induction program with
  | pure value => exact h
  | request asked resume ih => exact fun answer => ih answer (h answer)
  | note record rest ih => exact ih h

/-- What a computation yields on every branch, it yields in a run over any bus. -/
theorem Yields.run (h : program.Yields holds) {σ : Type} (bus : Bus σ) (state : σ) :
    holds (program.run bus state).events (program.run bus state).value := by
  induction program generalizing holds state with
  | pure value => exact h
  | request asked resume ih => exact ih _ (h _) _
  | note record rest ih => exact ih h _

end BusProgram

/-! ### Computations that may stop -/

namespace StepM

variable {α β : Type} {c : Cpu}

/-- What holds of events, result or fault and processor on every branch of a computation. -/
def Yields (c : Cpu) (x : StepM α) (post : List BusEvent → Except Fault α → Cpu → Prop) : Prop :=
  (x.run.run c).Yields fun events ended => post events ended.1 ended.2

/-- What holds of events, fault and processor on every branch on which a computation stops. -/
def Stops (c : Cpu) (x : StepM α) (post : List BusEvent → Fault → Cpu → Prop) : Prop :=
  Yields c x fun events result ended => ∀ fault, result = .error fault → post events fault ended

/-- A computation in sequence: a fault of its first part is its own. -/
theorem yields_bind {x : StepM α} {f : α → StepM β}
    {mid : List BusEvent → Except Fault α → Cpu → Prop}
    {post : List BusEvent → Except Fault β → Cpu → Prop} (h : Yields c x mid)
    (k : ∀ events a d, mid events (.ok a) d → Yields d (f a) fun more => post (events ++ more))
    (hf : ∀ events fault d, mid events (.error fault) d → post events (.error fault) d) :
    Yields c (x >>= f) post := by
  refine BusProgram.yields_bind.2 (BusProgram.Yields.mono h ?_)
  rintro events ⟨fault | a, d⟩ hd
  -- a fault of the first part ends the whole, with no event more
  · have hend : post (events ++ []) (.error fault) d := by
      rw [List.append_nil]
      exact hf events fault d hd
    exact hend
  · exact k events a d hd

/-- After a first part that can only succeed, with one value, the second part goes on from it. -/
theorem yields_bind_of_ok {x : StepM α} {f : α → StepM β} {a : α}
    {mid : List BusEvent → Cpu → Prop} {post : List BusEvent → Except Fault β → Cpu → Prop}
    (h : Yields c x fun events result d => result = .ok a ∧ mid events d)
    (k : ∀ events d, mid events d → Yields d (f a) fun more => post (events ++ more)) :
    Yields c (x >>= f) post := by
  apply yields_bind h
  · rintro events b d ⟨hb, hd⟩
    obtain rfl := Except.ok.inj hb
    exact k events d hd
  -- the first part has a value on every branch
  · rintro events fault d ⟨hfault, -⟩
    exact absurd hfault (by simp)

theorem yields_get_bind {f : Cpu → StepM β}
    {post : List BusEvent → Except Fault β → Cpu → Prop} (h : Yields c (f c) post) :
    Yields c (get >>= f) post := h

theorem yields_modify_bind {g : Cpu → Cpu} {f : Unit → StepM β}
    {post : List BusEvent → Except Fault β → Cpu → Prop} (h : Yields (g c) (f ()) post) :
    Yields c (modify g >>= f) post := h

variable {post : List BusEvent → Fault → Cpu → Prop}

theorem Stops.mono {post' : List BusEvent → Fault → Cpu → Prop} {x : StepM α}
    (h : Stops c x post) (imp : ∀ events fault d, post events fault d → post' events fault d) :
    Stops c x post' :=
  BusProgram.Yields.mono h fun _ _ hd fault hr => imp _ fault _ (hd fault hr)

/-- What holds when a computation stops holds of a run that has stopped. -/
theorem Stops.run {x : StepM α} (h : Stops c x post) {σ : Type} {bus : Bus σ} {state : σ}
    {fault : Fault} (hr : (x.runOn bus c state).value.1 = .error fault) :
    post (x.runOn bus c state).events fault (x.runOn bus c state).value.2 :=
  BusProgram.Yields.run h bus state fault hr

theorem stops_of_neverStops {x : StepM α} (h : NeverStops x) : Stops c x post := by
  -- a computation that never stops satisfies any claim about its stops
  refine BusProgram.Yields.mono (BusProgram.Always.yields (h c)) ?_
  rintro _ ⟨_, d⟩ hd fault rfl
  exact hd.elim

theorem stops_lift (x : CpuM α) : Stops c (liftM x : StepM α) post :=
  stops_of_neverStops (stopsOnly_lift x)

theorem stops_pure (a : α) : Stops c (pure a) post :=
  stops_of_neverStops (stopsOnly_pure trivial)

theorem stops_throw {fault : Fault} (h : post [] fault c) :
    Stops c (throw fault : StepM α) post := by
  rintro _ ⟨⟩
  exact h

theorem stops_get_bind {f : Cpu → StepM β} (h : Stops c (f c) post) :
    Stops c (get >>= f) post := h

theorem stops_modify_bind {g : Cpu → Cpu} {f : Unit → StepM β} (h : Stops (g c) (f ()) post) :
    Stops c (modify g >>= f) post := h

theorem stops_set_bind {d : Cpu} {f : Unit → StepM β} (h : Stops d (f ()) post) :
    Stops c (set d >>= f) post := h

/-- When its second part comes to its end from wherever it starts, a computation in sequence stops
with its first part only. -/
theorem stops_bind_of_neverStops {x : StepM α} {f : α → StepM β} (h : Stops c x post)
    (k : ∀ a, NeverStops (f a)) : Stops c (x >>= f) post := by
  -- the second part has no stop to answer for, and the first part's is that of the whole
  refine yields_bind h (fun _ a d _ => stops_of_neverStops (k a)) ?_
  rintro events fault d hd _ ⟨⟩
  exact hd fault rfl

/-- Before a note is taken and after, a computation is the same. -/
theorem stops_note_bind {record : LogRecord} {f : Unit → StepM β} (h : Stops c (f ()) post) :
    Stops c (liftM (CpuM.note record) >>= f) post := h

theorem stops_charge_bind {cycles : Nat} {f : Unit → StepM β}
    (h : Stops c (f ()) fun events => post (.charge cycles :: events)) :
    Stops c (liftM (CpuM.charge cycles) >>= f) post :=
  fun _ => h

/-- A read stops when the bus fails it. -/
theorem stops_read_bind {width : Width} {address : Word} {f : BitVec width.bits → StepM β}
    (hf : ∀ reason, post [.read width address (.error reason)] (.bus reason) c)
    (k : ∀ value, Stops c (f value) fun events =>
      post (.read width address (.ok value) :: events)) :
    Stops c (read width address >>= f) post := by
  -- both answers of the bus: only a failure stops here
  rintro (reason | value)
  · rintro _ ⟨⟩
    exact hf reason
  · exact k value

/-- A write stops when the bus fails it. -/
theorem stops_write_bind {width : Width} {address : Word} {value : BitVec width.bits}
    {f : Unit → StepM β}
    (hf : ∀ reason, post [.write width address value (.error reason)] (.bus reason) c)
    (k : Stops c (f ()) fun events => post (.write width address value (.ok ()) :: events)) :
    Stops c (write width address value >>= f) post := by
  rintro (reason | ⟨⟩)
  · rintro _ ⟨⟩
    exact hf reason
  · exact k

/-- A step that may be left out. -/
theorem stops_when {p : Prop} [Decidable p] {x : StepM Unit} {f : Unit → StepM β}
    (hx : p → Stops c (x >>= f) post) (h : Stops c (f ()) post) :
    Stops c (if p then x >>= f else f ()) post := by
  split_ifs with hp
  · exact hx hp
  · exact h

/-! ### Runs of a computation in sequence -/

section Runs

variable {σ : Type} {bus : Bus σ} {state : σ} {x : StepM α}

/-- After a first part with a result, the second part runs from where that has left processor and
bus. -/
theorem runOn_bind_of_ok {a : α} {d : Cpu} (h : (x.runOn bus c state).value = (.ok a, d))
    (f : α → StepM β) :
    (x >>= f).runOn bus c state =
      { (f a).runOn bus d (x.runOn bus c state).state with
        events := (x.runOn bus c state).events ++
          ((f a).runOn bus d (x.runOn bus c state).state).events
        log := (x.runOn bus c state).log ++
          ((f a).runOn bus d (x.runOn bus c state).state).log } := by
  -- a run of a computation in sequence is the second run after the first
  refine (BusProgram.run_bind bus _ _ state).trans ?_
  change ((x c).run bus state).value = _ at h
  rw [h]
  rfl

/-- After a first part that stops, nothing is run. -/
theorem runOn_bind_of_error {fault : Fault} {d : Cpu}
    (h : (x.runOn bus c state).value = (.error fault, d)) (f : α → StepM β) :
    (x >>= f).runOn bus c state = { x.runOn bus c state with value := (.error fault, d) } := by
  refine (BusProgram.run_bind bus _ _ state).trans ?_
  change ((x c).run bus state).value = _ at h
  rw [h]
  exact congrArg₂ (BusRun.mk _ _) (List.append_nil _) (List.append_nil _)

end Runs

/-- Cycles that may pass first. -/
theorem yields_charge_when {p : Prop} [Decidable p] {cycles : Nat} {f : Unit → StepM β}
    {post : List BusEvent → Except Fault β → Cpu → Prop}
    (h : Yields c (f ()) fun events =>
      post ((if p then [.charge cycles] else []) ++ events)) :
    Yields c (if p then liftM (CpuM.charge cycles) >>= f else f ()) post := by
  split_ifs at h ⊢
  · exact fun _ => h
  · exact h

/-- Cycles that may pass first, where what holds at a stop does not mind them. -/
theorem stops_charge_when {p : Prop} [Decidable p] {cycles : Nat} {f : Unit → StepM β}
    (hc : ∀ events fault d, post events fault d → post (.charge cycles :: events) fault d)
    (h : Stops c (f ()) post) :
    Stops c (if p then liftM (CpuM.charge cycles) >>= f else f ()) post :=
  stops_when (fun _ => stops_charge_bind (h.mono hc)) h

end StepM

/-! ### Computations that come to their end -/

variable {α β : Type} {c : Cpu}

/-- What holds of events, value and processor at the end of every branch of a computation. -/
def CpuM.Yields (c : Cpu) (x : CpuM α) (post : List BusEvent → α → Cpu → Prop) : Prop :=
  (x.run c).Yields fun events ended => post events ended.1 ended.2

/-- What holds of events, value and processor on every branch on which a computation does not
stop. -/
def StepM.Ends (c : Cpu) (x : StepM α) (post : List BusEvent → α → Cpu → Prop) : Prop :=
  Yields c x fun events result ended => ∀ a, result = .ok a → post events a ended

/-- A processor that branches to an address in its instruction set. -/
def Cpu.branched (cpu : Cpu) (address : Word) : Cpu :=
  { cpu with pc := cpu.instructionSet.align address + cpu.instructionSet.lookahead }

/-- The events of a branch: its notice and the cycles of the refill. -/
def Cpu.branchEvents (cpu : Cpu) (address : Word) : List BusEvent :=
  [.branch (cpu.instructionSet.align address) cpu.instructionSet, .charge 2]

theorem Cpu.fetchAddress_branched (cpu : Cpu) (address : Word) :
    (cpu.branched address).fetchAddress = cpu.instructionSet.align address :=
  BitVec.add_sub_cancel _ _

namespace CpuM

variable {post : List BusEvent → α → Cpu → Prop} {post' : List BusEvent → β → Cpu → Prop}

theorem yields_pure {a : α} (h : post [] a c) : Yields c (pure a) post := h

theorem yields_bind {x : CpuM α} {f : α → CpuM β} {mid : List BusEvent → α → Cpu → Prop}
    (h : Yields c x mid)
    (k : ∀ events a d, mid events a d → Yields d (f a) fun more => post' (events ++ more)) :
    Yields c (x >>= f) post' :=
  BusProgram.yields_bind.2 (BusProgram.Yields.mono h fun events ended => k events ended.1 ended.2)

theorem yields_get_bind {f : Cpu → CpuM β} (h : Yields c (f c) post') :
    Yields c (get >>= f) post' := h

theorem yields_modify_bind {g : Cpu → Cpu} {f : Unit → CpuM β} (h : Yields (g c) (f ()) post') :
    Yields c (modify g >>= f) post' := h

theorem yields_note_bind {record : LogRecord} {f : Unit → CpuM β} (h : Yields c (f ()) post') :
    Yields c (note record >>= f) post' := h

theorem yields_charge_bind {cycles : Nat} {f : Unit → CpuM β}
    (h : Yields c (f ()) fun events => post' (.charge cycles :: events)) :
    Yields c (charge cycles >>= f) post' :=
  fun _ => h

/-- After a computation that asks for nothing and leaves a known processor, the rest goes on from
there. -/
theorem yields_silent_bind {x : CpuM α} {f : α → CpuM β} {d : Cpu}
    (h : Yields c x fun events _ e => events = [] ∧ e = d) (k : ∀ a, Yields d (f a) post') :
    Yields c (x >>= f) post' := by
  refine yields_bind h ?_
  rintro _ a _ ⟨rfl, rfl⟩
  exact k a

theorem yields_installPsr (psr : Psr) :
    Yields c (installPsr psr) fun events _ d => events = [] ∧ d = c.withPsr psr := by
  unfold installPsr
  refine yields_get_bind ?_
  dsimp only
  -- with and without a note of the mode switch, the status is installed
  split_ifs
  · exact ⟨rfl, rfl⟩
  · exact ⟨rfl, rfl⟩

theorem yields_writeRegister (register : Register) (value : Word) :
    Yields c (writeRegister register value) fun events _ d =>
      events = [] ∧ d = c.write register value := by
  unfold writeRegister
  refine yields_get_bind ?_
  -- an unaligned program counter is noted, which is no event
  dsimp only
  split_ifs
  · exact ⟨rfl, rfl⟩
  · exact ⟨rfl, rfl⟩

theorem yields_branchTo {address : Word} {post : List BusEvent → Flow → Cpu → Prop}
    (h : post (c.branchEvents address) .jump (c.branched address)) :
    Yields c (branchTo address) post :=
  fun _ _ => h

end CpuM

namespace StepM

variable {post : List BusEvent → α → Cpu → Prop} {post' : List BusEvent → β → Cpu → Prop}

theorem Ends.mono {mid : List BusEvent → α → Cpu → Prop} {x : StepM α} (h : Ends c x mid)
    (imp : ∀ events a d, mid events a d → post events a d) : Ends c x post :=
  BusProgram.Yields.mono h fun _ _ hd a hr => imp _ a _ (hd a hr)

/-- What holds when a computation comes to its end holds of a run that has. -/
theorem Ends.run {x : StepM α} (h : Ends c x post) {σ : Type} {bus : Bus σ} {state : σ} {a : α}
    (hr : (x.runOn bus c state).value.1 = .ok a) :
    post (x.runOn bus c state).events a (x.runOn bus c state).value.2 :=
  BusProgram.Yields.run h bus state a hr

theorem ends_pure {a : α} (h : post [] a c) : Ends c (pure a) post := by
  rintro _ ⟨⟩
  exact h

theorem ends_throw {fault : Fault} : Ends c (throw fault : StepM α) post := by
  rintro _ ⟨⟩

theorem ends_bind {x : StepM α} {f : α → StepM β} {mid : List BusEvent → α → Cpu → Prop}
    (h : Ends c x mid)
    (k : ∀ events a d, mid events a d → Ends d (f a) fun more => post' (events ++ more)) :
    Ends c (x >>= f) post' := by
  -- a fault of the first part is no end
  refine yields_bind h (fun events a d hd => k events a d (hd a rfl)) ?_
  rintro _ _ _ - _ ⟨⟩

theorem yields_lift {x : CpuM α} {post : List BusEvent → Except Fault α → Cpu → Prop}
    (h : CpuM.Yields c x fun events a => post events (.ok a)) :
    Yields c (liftM x : StepM α) post := by
  -- lifting is going on with the value, which adds no event
  change CpuM.Yields c (x >>= fun a => pure (Except.ok a)) post
  apply CpuM.yields_bind h
  intro events a d hd
  rw [← List.append_nil events] at hd
  exact hd

theorem ends_lift {x : CpuM α} (h : CpuM.Yields c x post) : Ends c (liftM x : StepM α) post := by
  refine yields_lift (BusProgram.Yields.mono h ?_)
  rintro events ⟨a, d⟩ hd _ ⟨⟩
  exact hd

/-- After a computation that asks for nothing and leaves a known processor, the rest goes on from
there. -/
theorem ends_silent_bind {x : CpuM α} {f : α → StepM β} {d : Cpu}
    (h : CpuM.Yields c x fun events _ e => events = [] ∧ e = d)
    (k : ∀ a, Ends d (f a) post') : Ends c (liftM x >>= f) post' := by
  refine ends_bind (ends_lift h) ?_
  rintro _ a _ ⟨rfl, rfl⟩
  exact k a

@[inherit_doc ends_silent_bind]
theorem yields_silent_bind {x : CpuM α} {f : α → StepM β} {d : Cpu}
    {post : List BusEvent → Except Fault β → Cpu → Prop}
    (h : CpuM.Yields c x fun events _ e => events = [] ∧ e = d)
    (k : ∀ a, Yields d (f a) post) : Yields c (liftM x >>= f) post := by
  have hx : Yields c (liftM x : StepM α) fun events result e =>
      (events = [] ∧ e = d) ∧ ∃ a, result = .ok a :=
    yields_lift (BusProgram.Yields.mono h fun _ ended he => ⟨he, ended.1, rfl⟩)
  refine yields_bind hx ?_ ?_
  -- the value of the first part is not known, but that it has one is
  · rintro _ a _ ⟨⟨rfl, rfl⟩, -⟩
    exact k a
  · rintro _ _ _ ⟨-, _, ⟨⟩⟩

theorem ends_get_bind {f : Cpu → StepM β} (h : Ends c (f c) post') :
    Ends c (get >>= f) post' := h

theorem ends_set_bind {d : Cpu} {f : Unit → StepM β} (h : Ends d (f ()) post') :
    Ends c (set d >>= f) post' := h

theorem ends_modify_bind {g : Cpu → Cpu} {f : Unit → StepM β} (h : Ends (g c) (f ()) post') :
    Ends c (modify g >>= f) post' := h

theorem ends_note_bind {record : LogRecord} {f : Unit → StepM β} (h : Ends c (f ()) post') :
    Ends c (liftM (CpuM.note record) >>= f) post' := h

theorem ends_charge_bind {cycles : Nat} {f : Unit → StepM β}
    (h : Ends c (f ()) fun events => post' (.charge cycles :: events)) :
    Ends c (liftM (CpuM.charge cycles) >>= f) post' :=
  fun _ => h

/-- Reads and writes leave the processor as it is, and are no branches. -/
theorem ends_read (width : Width) (address : Word) :
    Ends c (read width address) fun events _ d =>
      d = c ∧ ∀ event ∈ events, ¬event.request.IsBranch := by
  rintro (reason | value)
  · rintro _ ⟨⟩
  · exact fun _ _ => ⟨rfl, List.forall_mem_singleton.2 id⟩

/-- Behind a read, the rest goes on from the same processor with what the bus has answered. -/
theorem ends_read_bind {width : Width} {address : Word} {f : BitVec width.bits → StepM β}
    (k : ∀ value, Ends c (f value) fun events =>
      post' (.read width address (.ok value) :: events)) :
    Ends c (read width address >>= f) post' := by
  rintro (reason | value)
  · rintro _ ⟨⟩
  · exact k value

@[inherit_doc ends_read]
theorem ends_write (width : Width) (address : Word) (value : BitVec width.bits) :
    Ends c (write width address value) fun events _ d =>
      d = c ∧ ∀ event ∈ events, ¬event.request.IsBranch := by
  rintro (reason | ⟨⟩)
  · rintro _ ⟨⟩
  · exact fun _ _ => ⟨rfl, List.forall_mem_singleton.2 id⟩

section Restore

variable {f : Unit → StepM β} {post : List BusEvent → Except Fault β → Cpu → Prop}

/-- A word is installed if it is the form of a status, and is a fault otherwise. -/
theorem yields_installPsrWord_bind {word : Word}
    (h : ∀ psr, Psr.ofWord? word = some psr → Yields (c.withPsr psr) (f ()) post)
    (hf : Psr.ofWord? word = none → post [] (.error (.invalidMode (Psr.modeField word))) c) :
    Yields c (installPsrWord word >>= f) post := by
  unfold installPsrWord
  -- a word without a mode is a fault before anything is installed
  cases hw : Psr.ofWord? word with
  | none => exact hf hw
  | some psr => exact yields_silent_bind (CpuM.yields_installPsr psr) fun _ => h psr hw

/-- A restoration installs the saved status, if there is one. -/
theorem yields_restorePsr_bind (hn : c.spsr? = none → Yields c (f ()) post)
    (hs : ∀ psr, c.spsr? = some psr.toWord → Yields (c.withPsr psr) (f ()) post)
    (hf : ∀ word, c.spsr? = some word → Psr.ofWord? word = none →
      post [] (.error (.invalidMode (Psr.modeField word))) c) :
    Yields c (restorePsr >>= f) post := by
  unfold restorePsr
  rw [bind_assoc]
  apply yields_get_bind
  cases hw : c.spsr? with
  | none => exact hn hw
  | some word =>
    refine yields_installPsrWord_bind (fun psr hp => hs psr ?_) (hf word hw)
    -- the saved word is the form of the status that is installed
    rw [hw, Psr.toWord_of_ofWord? hp]

end Restore

theorem ends_installPsrWord_bind {word : Word} {f : Unit → StepM β}
    (h : ∀ psr, Psr.ofWord? word = some psr → Ends (c.withPsr psr) (f ()) post') :
    Ends c (installPsrWord word >>= f) post' := by
  refine yields_installPsrWord_bind h ?_
  rintro _ _ ⟨⟩

/-- A restoration that does not stop installs the saved status, if there is one. -/
theorem ends_restorePsr_bind {f : Unit → StepM β} (hn : c.spsr? = none → Ends c (f ()) post')
    (hs : ∀ psr, c.spsr? = some psr.toWord → Ends (c.withPsr psr) (f ()) post') :
    Ends c (restorePsr >>= f) post' := by
  refine yields_restorePsr_bind hn hs ?_
  rintro _ _ _ _ ⟨⟩

/-- A check of the saved status that does not stop has done nothing. -/
theorem ends_checkRestore_bind {f : Unit → StepM β} (h : Ends c (f ()) post') :
    Ends c (checkRestore >>= f) post' := by
  unfold checkRestore
  rw [bind_assoc]
  refine ends_get_bind ?_
  -- the check reads the saved status and puts nothing back
  cases c.spsr? with
  | none => exact h
  | some word =>
    dsimp only
    split_ifs
    · exact ends_throw
    · exact h

/-- A step that may be left out. -/
theorem ends_when {p : Prop} [Decidable p] {x : StepM Unit} {f : Unit → StepM β}
    (hx : p → Ends c (x >>= f) post') (h : Ends c (f ()) post') :
    Ends c (if p then x >>= f else f ()) post' := by
  split_ifs with hp
  · exact hx hp
  · exact h

theorem ends_checkRestore_when {p : Prop} [Decidable p] {f : Unit → StepM β}
    (h : Ends c (f ()) post') : Ends c (if p then checkRestore >>= f else f ()) post' :=
  ends_when (fun _ => ends_checkRestore_bind h) h

end StepM

end Armv4t

import Armv4t.Exec.Basic
import Mathlib.Tactic.Common

/-!
# What a computation ensures whatever the bus answers

`CpuM.Ensures c x post` says that the computation `x`, started on the processor `c`, ends with a
result and a processor that satisfy `post` on every branch of its requests; `StepM.Ensures` says the
same of a computation that may stop with a fault, which is then part of the result.  The rules
follow the structure of a computation, and the effects that instructions are made of have one
specification each.
-/

namespace Armv4t

variable {α β : Type} {c : Cpu}

/-- What holds of result and processor at the end of every branch of a computation. -/
def CpuM.Ensures (c : Cpu) (x : CpuM α) (post : α → Cpu → Prop) : Prop :=
  (x.run c).Always fun ended => post ended.1 ended.2

namespace CpuM

variable {post mid : α → Cpu → Prop} {post' : β → Cpu → Prop}

theorem Ensures.mono {x : CpuM α} (h : Ensures c x mid) (imp : ∀ a d, mid a d → post a d) :
    Ensures c x post :=
  BusProgram.Always.mono h fun ended => imp ended.1 ended.2

/-- Nothing is asked of the end of a computation. -/
theorem ensures_true (x : CpuM α) : Ensures c x fun _ _ => True :=
  BusProgram.always_true _

/-- What a computation ensures holds after a run over any bus. -/
theorem Ensures.run {x : CpuM α} (h : Ensures c x post) {σ : Type} (bus : Bus σ) (state : σ) :
    post ((x.run c).run bus state).value.1 ((x.run c).run bus state).value.2 :=
  BusProgram.Always.run h bus state

theorem ensures_pure {a : α} (h : post a c) : Ensures c (pure a) post := h

theorem ensures_bind {x : CpuM α} {f : α → CpuM β} (h : Ensures c x mid)
    (k : ∀ a d, mid a d → Ensures d (f a) post') : Ensures c (x >>= f) post' :=
  BusProgram.always_bind.2 (h.mono k)

/-- After a computation that leaves a known processor, the rest goes on from there. -/
theorem ensures_bind_eq {x : CpuM α} {f : α → CpuM β} {d : Cpu} (h : Ensures c x fun _ e => e = d)
    (k : ∀ a, Ensures d (f a) post') : Ensures c (x >>= f) post' := by
  refine ensures_bind h ?_
  rintro a _ rfl
  exact k a

theorem ensures_get_bind {f : Cpu → CpuM β} (h : Ensures c (f c) post') :
    Ensures c (get >>= f) post' := h

theorem ensures_set {post : Unit → Cpu → Prop} {d : Cpu} (h : post () d) :
    Ensures c (set d : CpuM Unit) post := h

theorem ensures_set_bind {d : Cpu} {f : Unit → CpuM β} (h : Ensures d (f ()) post') :
    Ensures c (set d >>= f) post' := h

theorem ensures_modify_bind {g : Cpu → Cpu} {f : Unit → CpuM β}
    (h : Ensures (g c) (f ()) post') : Ensures c (modify g >>= f) post' := h

theorem ensures_note (record : LogRecord) : Ensures c (note record) fun _ d => d = c := rfl

theorem ensures_charge (cycles : Nat) : Ensures c (charge cycles) fun _ d => d = c :=
  fun _ => rfl

/-- Installing a status leaves the processor with that status. -/
theorem ensures_installPsr (psr : Psr) :
    Ensures c (installPsr psr) fun _ d => d = c.withPsr psr := by
  unfold installPsr
  refine ensures_get_bind ?_
  dsimp only
  split_ifs
  · exact ensures_bind_eq (ensures_note _) fun _ => ensures_set rfl
  · exact ensures_set rfl

/-- A register write without a branch only changes the register. -/
theorem ensures_writeRegister (register : Register) (value : Word) :
    Ensures c (writeRegister register value) fun _ d => d = c.write register value := by
  unfold writeRegister
  refine ensures_get_bind ?_
  dsimp only
  split_ifs
  · exact ensures_bind_eq (ensures_note _) fun _ => ensures_set rfl
  · exact ensures_set rfl

/-- A branch leaves the program counter two instructions ahead of its target. -/
theorem ensures_branchTo (address : Word) :
    Ensures c (branchTo address) fun flow d => flow = .jump ∧
      d = { c with pc := c.instructionSet.align address + c.instructionSet.lookahead } := by
  unfold branchTo
  refine ensures_get_bind (ensures_set_bind ?_)
  exact fun _ _ => ⟨rfl, rfl⟩

end CpuM

/-- What holds of result or fault and processor at the end of every branch of a computation that may
stop. -/
def StepM.Ensures (c : Cpu) (x : StepM α) (post : Except Fault α → Cpu → Prop) : Prop :=
  CpuM.Ensures c x.run post

namespace StepM

variable {post : Except Fault α → Cpu → Prop} {post' : Except Fault β → Cpu → Prop}

theorem ensures_pure {a : α} (h : post (.ok a) c) : Ensures c (pure a) post := h

theorem ensures_throw {fault : Fault} (h : post (.error fault) c) :
    Ensures c (throw fault : StepM α) post := h

/-- A computation in sequence: a fault of its first part is its own. -/
theorem ensures_bind {x : StepM α} {f : α → StepM β} {mid : Except Fault α → Cpu → Prop}
    (h : Ensures c x mid) (k : ∀ a d, mid (.ok a) d → Ensures d (f a) post')
    (hf : ∀ fault d, mid (.error fault) d → post' (.error fault) d) :
    Ensures c (x >>= f) post' := by
  refine CpuM.ensures_bind h ?_
  rintro (fault | a) d hd
  · exact hf fault d hd
  · exact k a d hd

/-- After a computation with a known end, the rest goes on from there. -/
theorem ensures_bind_ok {x : StepM α} {f : α → StepM β} {a : α} {d : Cpu}
    (h : Ensures c x fun r e => r = .ok a ∧ e = d) (k : Ensures d (f a) post') :
    Ensures c (x >>= f) post' := by
  refine ensures_bind h ?_ ?_
  · rintro _ _ ⟨⟨⟩, rfl⟩
    exact k
  · rintro _ _ ⟨⟨⟩, _⟩

theorem ensures_lift {x : CpuM α} {mid : α → Cpu → Prop} (h : CpuM.Ensures c x mid)
    (imp : ∀ a d, mid a d → post (.ok a) d) : Ensures c (liftM x : StepM α) post := by
  refine CpuM.ensures_bind (f := fun a => pure (Except.ok a)) h fun a d hd => ?_
  exact CpuM.ensures_pure (imp a d hd)

/-- A computation whose first part cannot stop. -/
theorem ensures_lift_bind {x : CpuM α} {f : α → StepM β} {mid : α → Cpu → Prop}
    (h : CpuM.Ensures c x mid) (k : ∀ a d, mid a d → Ensures d (f a) post') :
    Ensures c (liftM x >>= f) post' := by
  refine ensures_bind (ensures_lift h fun a d hd => ⟨a, rfl, hd⟩ :
    Ensures c (liftM x) fun r d => ∃ a, r = .ok a ∧ mid a d) ?_ ?_
  · rintro a d ⟨_, ⟨⟩, hd⟩
    exact k a d hd
  · rintro fault d ⟨_, ⟨⟩, _⟩

theorem ensures_get_bind {f : Cpu → StepM β} (h : Ensures c (f c) post') :
    Ensures c (get >>= f) post' := h

theorem ensures_set {post : Except Fault Unit → Cpu → Prop} {d : Cpu} (h : post (.ok ()) d) :
    Ensures c (set d : StepM Unit) post := h

theorem ensures_modify {post : Except Fault Unit → Cpu → Prop} {f : Cpu → Cpu}
    (h : post (.ok ()) (f c)) : Ensures c (modify f : StepM Unit) post := h

/-- Installing a status word installs the status it is the form of, or stops and changes nothing. -/
theorem ensures_installPsrWord (word : Word) :
    Ensures c (installPsrWord word) fun r d =>
      match Psr.ofWord? word with
      | some psr => r = .ok () ∧ d = c.withPsr psr
      | none => r = .error (.invalidMode (Psr.modeField word)) ∧ d = c := by
  unfold installPsrWord
  cases Psr.ofWord? word with
  | none => exact ensures_throw ⟨rfl, rfl⟩
  | some psr =>
    exact ensures_lift (CpuM.ensures_installPsr psr) fun _ d hd => ⟨rfl, hd⟩

/-- Restoring a saved status that is valid installs it. -/
theorem ensures_restorePsr {psr : Psr} (h : c.spsr? = some psr.toWord) :
    Ensures c restorePsr fun r d => r = .ok () ∧ d = c.withPsr psr := by
  unfold restorePsr
  refine ensures_get_bind ?_
  rw [h]
  refine CpuM.Ensures.mono (ensures_installPsrWord _) fun r d hd => ?_
  -- the saved word is the form of a status, so its mode bits are valid
  rw [Psr.ofWord?_toWord] at hd
  exact hd

/-! ### The faults with which a computation may stop -/

/-- A computation that stops with allowed faults only, and otherwise has a result that satisfies
`posts`. -/
def StopsOnly (allowed : Fault → Prop) (x : StepM α) (posts : α → Prop) : Prop :=
  ∀ c, Ensures c x fun r _ => match r with
    | .ok a => posts a
    | .error fault => allowed fault

/-- A computation that stops only when the bus fails an access. -/
abbrev OnlyBusFaults (x : StepM α) (posts : α → Prop) : Prop :=
  StopsOnly (fun fault => ∃ reason, fault = .bus reason) x posts

/-- A computation that comes to its end. -/
abbrev NeverStops (x : StepM α) : Prop :=
  StopsOnly (fun _ => False) x fun _ => True

variable {allowed : Fault → Prop} {posts : α → Prop} {posts' : β → Prop}

theorem stopsOnly_pure {a : α} (h : posts a) : StopsOnly allowed (pure a) posts := fun _ => h

theorem stopsOnly_bind {x : StepM α} {f : α → StepM β} (h : StopsOnly allowed x posts)
    (k : ∀ a, posts a → StopsOnly allowed (f a) posts') : StopsOnly allowed (x >>= f) posts' :=
  fun c => ensures_bind (h c) (fun a d ha => k a ha d) fun _ _ hf => hf

theorem stopsOnly_get_bind {f : Cpu → StepM β} (h : ∀ cpu, StopsOnly allowed (f cpu) posts') :
    StopsOnly allowed (get >>= f) posts' :=
  fun c => ensures_get_bind (h c c)

theorem stopsOnly_modify (f : Cpu → Cpu) :
    StopsOnly allowed (modify f : StepM Unit) fun _ => True :=
  fun _ => trivial

/-- A computation that cannot stop at all. -/
theorem stopsOnly_lift (x : CpuM α) : StopsOnly allowed (liftM x : StepM α) fun _ => True :=
  fun _ => ensures_lift (CpuM.ensures_true x) fun _ _ _ => trivial

theorem onlyBusFaults_read (width : Width) (address : Word) :
    OnlyBusFaults (read width address) fun _ => True := by
  -- the two branches are the two answers of the bus
  rintro c (fault | value)
  · exact ⟨fault, rfl⟩
  · trivial

theorem onlyBusFaults_write (width : Width) (address : Word) (value : BitVec width.bits) :
    OnlyBusFaults (write width address value) fun _ => True := by
  rintro c (fault | ⟨⟩)
  · exact ⟨fault, rfl⟩
  · trivial

/-- A step that may be left out. -/
theorem stopsOnly_when {p : Prop} [Decidable p] {x : StepM Unit} {f : Unit → StepM β}
    (h : StopsOnly allowed x fun _ => True) (k : StopsOnly allowed (f ()) posts') :
    StopsOnly allowed (if p then x >>= f else f ()) posts' := by
  split_ifs
  · exact stopsOnly_bind h fun _ _ => k
  · exact k

end StepM

end Armv4t

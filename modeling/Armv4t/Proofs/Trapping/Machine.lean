import Armv4t.Proofs.Simulation
import Armv4t.Proofs.Trapping.Cells

/-!
# The processor on a host that traps

A `HostM` computation works on the cells of a processor and on its bus, stops with a fault where the
processor does and traps where its arithmetic does.  `Follows cells cpu x y` says that from given
cells `x` puts the same requests as `y` from a given processor, notes the same records, stops with
the same faults or ends with the same value, and leaves the cells of the processor that `y` leaves.
As `y` cannot trap, neither can `x`.

The rules of the relation take one step of one side at a time where the step asks the bus for
nothing, so that a host may look at its cells and change them in smaller steps than the processor
does.
-/

namespace Armv4t.Trapping

/-- Why a computation on a host stops short. -/
inductive Stop where
  /-- The host traps. -/
  | trap (cause : Trap)
  /-- The processor reports a fault. -/
  | fault (fault : Fault)
deriving DecidableEq, Repr

/-- Computations on the cells of a processor and its bus. -/
abbrev HostM := ExceptT Stop (StateT Cells BusProgram)

namespace HostM

variable {α β : Type}

/-- Performs a checked computation. -/
def check : Checked α → HostM α
  | .ok value => return value
  | .error cause => throw (.trap cause)

@[simp] theorem check_ok (value : α) : check (.ok value : Checked α) = pure value := rfl

/-- A checked computation in two parts. -/
theorem check_bind (x : Checked α) (f : α → Checked β) :
    check (x >>= f) = check x >>= fun value => check (f value) := by
  cases x <;> rfl

/-- Looks at the cells. -/
def look (view : Cells → Checked α) : HostM α := do
  check (view (← get))

/-- Changes the cells. -/
def update (change : Cells → Checked Cells) : HostM Unit := do
  set (← check (change (← get)))

/-- Stops with a fault of the processor. -/
def fail (fault : Fault) : HostM α :=
  throw (.fault fault)

/-- Puts a request to the bus. -/
def ask (request : BusRequest) : HostM request.Answer :=
  ExceptT.lift fun cells => .request request fun answer => .pure (answer, cells)

/-- Notes a log record. -/
def note (record : LogRecord) : HostM Unit :=
  ExceptT.lift fun cells => .note record (.pure ((), cells))

/-- Lets internal cycles pass. -/
def charge (cycles : Word) : HostM Unit :=
  ask (.charge cycles.toNat)

/-- Reads from the bus. -/
def read (width : Width) (address : Word) : HostM (BitVec width.bits) := do
  match ← ask (.read width address) with
  | .ok value => return value
  | .error fault => fail (.bus fault)

/-- Writes to the bus. -/
def write (width : Width) (address : Word) (value : BitVec width.bits) : HostM Unit := do
  match ← ask (.write width address value) with
  | .ok () => return ()
  | .error fault => fail (.bus fault)

end HostM

/-- From the given cells, the host computation does what the other does from the processor, and
leaves the cells of the processor that the other leaves. -/
def Follows {α : Type} (cells : Cells) (cpu : Cpu) (x : HostM α) (y : StepM α) : Prop :=
  BusProgram.Simulates Eq (fun a b => a.1 = b.1.mapError Stop.fault ∧ a.2 = b.2.cells)
    (x.run.run cells) (y.run.run cpu)

section Rules

open HostM

variable {α β γ : Type} {cells : Cells} {cpu : Cpu}

theorem follows_pure (value : α) : Follows cpu.cells cpu (pure value) (pure value) :=
  .pure ⟨rfl, rfl⟩

theorem follows_fail (fault : Fault) :
    Follows cpu.cells cpu (fail fault : HostM α) (throw fault) :=
  .pure ⟨rfl, rfl⟩

theorem follows_bind {x : HostM α} {y : StepM α} {f : α → HostM β} {g : α → StepM β}
    (h : Follows cells cpu x y) (k : ∀ value c, Follows c.cells c (f value) (g value)) :
    Follows cells cpu (x >>= f) (y >>= g) := by
  refine BusProgram.Simulates.bind h ?_
  rintro ⟨_, _⟩ ⟨result, c⟩ ⟨rfl, rfl⟩
  -- a fault of the first part is the outcome of the whole, on both sides
  cases result with
  | error fault => exact follows_fail fault
  | ok value => exact k value c

/-- A choice that both sides make alike. -/
theorem follows_ite {p : Prop} [Decidable p] {x x' : HostM α} {y y' : StepM α}
    (h : p → Follows cells cpu x y) (h' : ¬p → Follows cells cpu x' y') :
    Follows cells cpu (if p then x else x') (if p then y else y') := by
  split_ifs with hp
  · exact h hp
  · exact h' hp

/-- A step that both sides take or leave out alike. -/
theorem follows_when {p : Prop} [Decidable p] {x : HostM Unit} {y : StepM Unit}
    {f : Unit → HostM α} {g : Unit → StepM α} (h : p → Follows cpu.cells cpu x y)
    (k : ∀ c : Cpu, Follows c.cells c (f ()) (g ())) :
    Follows cpu.cells cpu (if p then x >>= f else f ()) (if p then y >>= g else g ()) :=
  follows_ite (fun hp => follows_bind (h hp) fun _ c => k c) fun _ => k cpu

/-! ### Steps of the host -/

theorem follows_check {x : Checked α} {value : α} (h : x = .ok value) {f : α → HostM β}
    {y : StepM β} (k : Follows cells cpu (f value) y) : Follows cells cpu (check x >>= f) y := by
  subst h
  exact k

theorem follows_look {view : Cells → Checked α} {value : α} (h : view cells = .ok value)
    {f : α → HostM β} {y : StepM β} (k : Follows cells cpu (f value) y) :
    Follows cells cpu (look view >>= f) y := by
  have hrun : (look view >>= f).run.run cells = (f value).run.run cells := by
    change (check (view cells) >>= f).run.run cells = _
    rw [h]
    rfl
  unfold Follows
  rw [hrun]
  exact k

theorem follows_cells {f : Cells → HostM β} {y : StepM β} (k : Follows cells cpu (f cells) y) :
    Follows cells cpu (get >>= f) y := k

theorem follows_update {change : Cells → Checked Cells} {changed : Cells}
    (h : change cells = .ok changed) {f : Unit → HostM β} {y : StepM β}
    (k : Follows changed cpu (f ()) y) : Follows cells cpu (update change >>= f) y := by
  have hrun : (update change >>= f).run.run cells = (f ()).run.run changed := by
    change ((check (change cells) >>= fun changed => set changed) >>= f).run.run cells = _
    rw [h]
    rfl
  unfold Follows
  rw [hrun]
  exact k

/-! ### Steps of the processor -/

theorem follows_get {x : HostM β} {g : Cpu → StepM β} (k : Follows cells cpu x (g cpu)) :
    Follows cells cpu x (get >>= g) := k

theorem follows_modify {change : Cpu → Cpu} {x : HostM β} {g : Unit → StepM β}
    (k : Follows cells (change cpu) x (g ())) : Follows cells cpu x (modify change >>= g) := k

theorem follows_set {changed : Cpu} {x : HostM β} {g : Unit → StepM β}
    (k : Follows cells changed x (g ())) : Follows cells cpu x (set changed >>= g) := k

/-! ### Steps of both -/

/-- The host changes its cells to those of the processor that the other side sets. -/
theorem follows_update_set {change : Cells → Checked Cells} {changed : Cpu}
    (h : change cells = .ok changed.cells) : Follows cells cpu (update change) (set changed) := by
  have hrun : (update change).run.run cells = .pure (.ok (), changed.cells) := by
    change (check (change cells) >>= fun changed => set changed).run.run cells = _
    rw [h]
    rfl
  unfold Follows
  rw [hrun]
  exact .pure ⟨rfl, rfl⟩

theorem follows_update_modify {change : Cells → Checked Cells} {change' : Cpu → Cpu}
    (h : change cells = .ok (change' cpu).cells) :
    Follows cells cpu (update change) (modify change') := by
  have hset : Follows cells cpu (update change) (set (change' cpu)) := follows_update_set h
  exact hset

theorem follows_ask (request : BusRequest) :
    Follows cpu.cells cpu (ask request) (liftM (CpuM.ask request)) :=
  .request request fun _ => .pure ⟨rfl, rfl⟩

theorem follows_note_bind (record : LogRecord) {f : Unit → HostM β} {g : Unit → StepM β}
    (k : Follows cells cpu (f ()) (g ())) :
    Follows cells cpu (note record >>= f) (liftM (CpuM.note record) >>= g) :=
  .note rfl k

theorem follows_charge_bind {cycles : Word} {count : Nat} (h : cycles.toNat = count)
    {f : Unit → HostM β} {g : Unit → StepM β} (k : Follows cells cpu (f ()) (g ())) :
    Follows cells cpu (charge cycles >>= f) (liftM (CpuM.charge count) >>= g) := by
  subst h
  exact .request (.charge cycles.toNat) fun _ => k

theorem follows_read (width : Width) (address : Word) :
    Follows cpu.cells cpu (HostM.read width address) (StepM.read width address) := by
  refine follows_bind (follows_ask (.read width address)) ?_
  rintro (fault | value) c
  · exact follows_fail (.bus fault)
  · exact follows_pure value

theorem follows_write (width : Width) (address : Word) (value : BitVec width.bits) :
    Follows cpu.cells cpu (HostM.write width address value) (StepM.write width address value) := by
  refine follows_bind (follows_ask (.write width address value)) ?_
  rintro (fault | ⟨⟩) c
  · exact follows_fail (.bus fault)
  · exact follows_pure ()

end Rules

end Armv4t.Trapping

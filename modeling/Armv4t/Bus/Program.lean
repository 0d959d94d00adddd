import Armv4t.Log

/-!
# Bus programs

A computation that talks to a bus is a tree: it has finished with a value, or it puts a request to
the bus and goes on with the answer, or it notes a log record and goes on.  What holds of every
branch of the tree holds on every bus, and two computations with the same tree cannot be told apart
by any bus.  The trees are finite on every path, so that properties are proved by induction on them.
-/

namespace Armv4t

/-- The reason a bus gives for failing an access. -/
structure BusFault where
  message : String
deriving DecidableEq, Repr

/-- What the processor asks of its bus. -/
inductive BusRequest where
  /-- Read a value of the given width. -/
  | read (width : Width) (address : Word)
  /-- Write a value of the given width. -/
  | write (width : Width) (address : Word) (value : BitVec width.bits)
  /-- Let internal cycles pass. -/
  | charge (cycles : Nat)
  /-- Be told that execution goes on at `target` in the given instruction set. -/
  | branch (target : Word) (set : InstructionSet)
deriving DecidableEq, Repr

/-- What the bus answers: an access may fail, the other requests cannot. -/
@[reducible] def BusRequest.Answer : BusRequest → Type
  | read width _ => Except BusFault (BitVec width.bits)
  | write .. => Except BusFault Unit
  | charge _ => Unit
  | branch .. => Unit

/-- A computation that puts requests to a bus. -/
inductive BusProgram (α : Type) : Type where
  | pure (value : α)
  | request (request : BusRequest) (resume : request.Answer → BusProgram α)
  | note (record : LogRecord) (rest : BusProgram α)

namespace BusProgram

variable {α β γ : Type}

/-- Runs one computation and then another that depends on its value. -/
def bind : BusProgram α → (α → BusProgram β) → BusProgram β
  | pure value, next => next value
  | request asked resume, next => request asked fun answer => (resume answer).bind next
  | note record rest, next => note record (rest.bind next)

instance : Monad BusProgram where
  pure := pure
  bind := bind

@[simp] theorem pure_eq (value : α) : (Pure.pure value : BusProgram α) = pure value := rfl

@[simp] theorem bind_eq (program : BusProgram α) (next : α → BusProgram β) :
    program >>= next = program.bind next := rfl

@[simp] theorem pure_bind (value : α) (next : α → BusProgram β) :
    (pure value).bind next = next value := rfl

@[simp] theorem request_bind (asked : BusRequest) (resume : asked.Answer → BusProgram α)
    (next : α → BusProgram β) :
    (request asked resume).bind next = request asked fun answer => (resume answer).bind next :=
  rfl

@[simp] theorem note_bind (record : LogRecord) (rest : BusProgram α) (next : α → BusProgram β) :
    (note record rest).bind next = note record (rest.bind next) := rfl

@[simp] theorem bind_pure (program : BusProgram α) : program.bind pure = program := by
  induction program with
  | pure value => rfl
  | request asked resume ih => simp [ih]
  | note record rest ih => simp [ih]

theorem bind_assoc (program : BusProgram α) (next : α → BusProgram β) (last : β → BusProgram γ) :
    (program.bind next).bind last = program.bind fun value => (next value).bind last := by
  induction program with
  | pure value => rfl
  | request asked resume ih => simp [ih]
  | note record rest ih => simp [ih]

instance : LawfulMonad BusProgram :=
  LawfulMonad.mk' _ (fun program => bind_pure program) (fun _ _ => rfl)
    (fun program next last => bind_assoc program next last)

end BusProgram

/-- A request with the answer the bus gave. -/
structure BusEvent where
  request : BusRequest
  answer : request.Answer

/-- A bus: how it answers each request, and how its own state changes thereby. -/
structure Bus (σ : Type) where
  answer (request : BusRequest) (state : σ) : request.Answer × σ

/-- What a run over a bus leaves: its value, the state of the bus, the requests with their answers
and the log records, both in order. -/
structure BusRun (σ α : Type) where
  value : α
  state : σ
  events : List BusEvent
  log : List LogRecord

/-- Runs a computation over a bus. -/
def BusProgram.run {σ α : Type} (bus : Bus σ) : BusProgram α → σ → BusRun σ α
  | pure value, state => ⟨value, state, [], []⟩
  | request asked resume, state =>
    let (answer, state) := bus.answer asked state
    let rest := (resume answer).run bus state
    { rest with events := ⟨asked, answer⟩ :: rest.events }
  | note record rest, state =>
    let rest := rest.run bus state
    { rest with log := record :: rest.log }

namespace BusProgram

variable {σ α β : Type}

@[simp] theorem run_pure (bus : Bus σ) (value : α) (state : σ) :
    (pure value).run bus state = ⟨value, state, [], []⟩ := rfl

/-- A composed computation runs its first part and then, from where that has left the bus, its
second. -/
theorem run_bind (bus : Bus σ) (program : BusProgram α) (next : α → BusProgram β) (state : σ) :
    (program.bind next).run bus state =
      { (next (program.run bus state).value).run bus (program.run bus state).state with
        events := (program.run bus state).events ++
          ((next (program.run bus state).value).run bus (program.run bus state).state).events
        log := (program.run bus state).log ++
          ((next (program.run bus state).value).run bus (program.run bus state).state).log } := by
  induction program generalizing state with
  | pure value => rfl
  | request asked resume ih => simp only [request_bind, run, ih, List.cons_append]
  | note record rest ih => simp only [note_bind, run, ih, List.cons_append]

/-- What holds of the value at the end of every branch of a computation. -/
def Always (holds : α → Prop) : BusProgram α → Prop
  | pure value => holds value
  | request _ resume => ∀ answer, (resume answer).Always holds
  | note _ rest => rest.Always holds

theorem always_bind {holds : β → Prop} {program : BusProgram α} {next : α → BusProgram β} :
    (program.bind next).Always holds ↔ program.Always fun value => (next value).Always holds := by
  induction program with
  | pure value => rfl
  | request asked resume ih => exact forall_congr' fun answer => ih answer
  | note record rest ih => exact ih

theorem Always.mono {holds holds' : α → Prop} {program : BusProgram α}
    (h : program.Always holds) (imp : ∀ value, holds value → holds' value) :
    program.Always holds' := by
  induction program with
  | pure value => exact imp _ h
  | request asked resume ih => exact fun answer => ih answer (h answer)
  | note record rest ih => exact ih h

theorem always_true (program : BusProgram α) : program.Always fun _ => True := by
  induction program with
  | pure value => trivial
  | request asked resume ih => exact ih
  | note record rest ih => exact ih

/-- What holds at the end of every branch holds after a run over any bus. -/
theorem Always.run {holds : α → Prop} {program : BusProgram α} (h : program.Always holds)
    (bus : Bus σ) (state : σ) : holds (program.run bus state).value := by
  induction program generalizing state with
  | pure value => exact h
  | request asked resume ih => exact ih _ (h _) _
  | note record rest ih => exact ih h _

end BusProgram

end Armv4t

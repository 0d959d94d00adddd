import Armv4t.Exec.Basic
import Mathlib.Data.List.Forall2
import Mathlib.Tactic.Common

/-!
# Computations that cannot be told apart by their requests

`BusProgram.Simulates notes ends` relates two computations that put the same requests in the same
order whatever the bus answers, note records related by `notes`, and end in values related by
`ends`.  Over buses that answer alike such computations make the same events and end related
(`Simulates.run`).  `StepM.Related` and `CpuM.Related` are the same relation for computations on a
processor that give equal results and keep a relation between the two processors; their rules
follow the structure of a computation: sequence, lookup, update, request, choice.
-/

namespace Armv4t

namespace BusProgram

variable {α β γ δ : Type} {notes : LogRecord → LogRecord → Prop}

/-- Two computations that put the same requests on every branch, note related records and end in
related values. -/
inductive Simulates (notes : LogRecord → LogRecord → Prop) (ends : α → β → Prop) :
    BusProgram α → BusProgram β → Prop
  | pure {a : α} {b : β} (h : ends a b) : Simulates notes ends (.pure a) (.pure b)
  | request (asked : BusRequest) {resume : asked.Answer → BusProgram α}
      {resume' : asked.Answer → BusProgram β}
      (h : ∀ answer, Simulates notes ends (resume answer) (resume' answer)) :
      Simulates notes ends (.request asked resume) (.request asked resume')
  | note {record record' : LogRecord} {rest : BusProgram α} {rest' : BusProgram β}
      (hr : notes record record') (h : Simulates notes ends rest rest') :
      Simulates notes ends (.note record rest) (.note record' rest')

namespace Simulates

variable {ends : α → β → Prop}

/-- Weaker relations between records and between values relate more computations. -/
theorem mono {notes' : LogRecord → LogRecord → Prop} {ends' : α → β → Prop}
    {p : BusProgram α} {q : BusProgram β} (h : Simulates notes ends p q)
    (hn : ∀ r r', notes r r' → notes' r r') (he : ∀ a b, ends a b → ends' a b) :
    Simulates notes' ends' p q := by
  induction h with
  | pure h => exact .pure (he _ _ h)
  | request asked _ ih => exact .request asked ih
  | note hr _ ih => exact .note (hn _ _ hr) ih

/-- Related computations stay related when each goes on in related ways from related values. -/
theorem bind {ends' : γ → δ → Prop} {p : BusProgram α} {q : BusProgram β}
    {next : α → BusProgram γ} {next' : β → BusProgram δ} (h : Simulates notes ends p q)
    (k : ∀ a b, ends a b → Simulates notes ends' (next a) (next' b)) :
    Simulates notes ends' (p.bind next) (q.bind next') := by
  induction h with
  | pure h => exact k _ _ h
  | request asked _ ih => exact .request asked ih
  | note hr _ ih => exact .note hr ih

/-- What always holds at the end of the first computation holds beside the relation. -/
theorem and_always {p : BusProgram α} {q : BusProgram β} (h : Simulates notes ends p q)
    {holds : α → Prop} (ha : p.Always holds) :
    Simulates notes (fun a b => ends a b ∧ holds a) p q := by
  induction h with
  | pure h => exact .pure ⟨h, ha⟩
  | request asked _ ih => exact .request asked fun answer => ih answer (ha answer)
  | note hr _ ih => exact .note hr (ih ha)

end Simulates

end BusProgram

/-! ### Runs over two buses -/

/-- Two buses that answer every request alike in related states, and stay in related states. -/
def Bus.Alike {σ τ : Type} (bus : Bus σ) (bus' : Bus τ) (related : σ → τ → Prop) : Prop :=
  ∀ request s t, related s t →
    (bus.answer request s).1 = (bus'.answer request t).1 ∧
      related (bus.answer request s).2 (bus'.answer request t).2

/-- A bus answers like itself. -/
theorem Bus.alike_self {σ : Type} (bus : Bus σ) : bus.Alike bus Eq := by
  rintro request s _ rfl
  exact ⟨rfl, rfl⟩

/-- What two runs have in common: related values, related final states of their buses, the same
events and related log records. -/
structure BusRun.Matches {σ τ α β : Type} (notes : LogRecord → LogRecord → Prop)
    (ends : α → β → Prop) (states : σ → τ → Prop) (left : BusRun σ α) (right : BusRun τ β) :
    Prop where
  value : ends left.value right.value
  state : states left.state right.state
  events : left.events = right.events
  log : List.Forall₂ notes left.log right.log

/-- Related computations over buses that answer alike make the same run. -/
theorem BusProgram.Simulates.run {σ τ α β : Type} {notes : LogRecord → LogRecord → Prop}
    {ends : α → β → Prop} {states : σ → τ → Prop} {bus : Bus σ} {bus' : Bus τ}
    {p : BusProgram α} {q : BusProgram β} (h : Simulates notes ends p q)
    (alike : bus.Alike bus' states) {s : σ} {t : τ} (hs : states s t) :
    (p.run bus s).Matches notes ends states (q.run bus' t) := by
  induction h generalizing s t with
  | pure h => exact ⟨h, hs, rfl, .nil⟩
  | request asked _ ih =>
    -- the right bus gives the same answer, so both sides resume on the same branch
    obtain ⟨same, hs'⟩ := alike asked s t hs
    have rest := ih (bus.answer asked s).1 hs'
    rw [same] at rest
    constructor
    · simpa only [BusProgram.run, same] using rest.value
    · simpa only [BusProgram.run, same] using rest.state
    · simpa only [BusProgram.run, same] using congrArg _ rest.events
    · simpa only [BusProgram.run, same] using rest.log
  | note hr _ ih =>
    have rest := ih hs
    exact ⟨rest.value, rest.state, rest.events, .cons hr rest.log⟩

/-! ### Computations on related processors -/

variable {rel : Cpu → Cpu → Prop} {c d : Cpu} {α β : Type}

/-- Two computations that, from two given processors, put the same requests, give the same result
and leave related processors. -/
def CpuM.Related (rel : Cpu → Cpu → Prop) (c d : Cpu) (x y : CpuM α) : Prop :=
  BusProgram.Simulates Eq (fun a b => a.1 = b.1 ∧ rel a.2 b.2) (x.run c) (y.run d)

namespace CpuM

theorem related_pure (h : rel c d) (a : α) :
    Related rel c d (pure a : CpuM α) (pure a : CpuM α) :=
  BusProgram.Simulates.pure ⟨rfl, h⟩

theorem related_bind {x y : CpuM α} {f g : α → CpuM β} (h : Related rel c d x y)
    (k : ∀ a {c' d'}, rel c' d' → Related rel c' d' (f a) (g a)) :
    Related rel c d (x >>= f) (y >>= g) := by
  refine BusProgram.Simulates.bind h ?_
  rintro ⟨a, c'⟩ ⟨b, d'⟩ ⟨rfl, h'⟩
  exact k a h'

theorem related_get_bind {f g : Cpu → CpuM α} (h : Related rel c d (f c) (g d)) :
    Related rel c d (get >>= f) (get >>= g) := h

theorem related_set {c' d' : Cpu} (h : rel c' d') :
    Related rel c d (set c' : CpuM Unit) (set d' : CpuM Unit) :=
  BusProgram.Simulates.pure ⟨rfl, h⟩

theorem related_modify {f g : Cpu → Cpu} (h : rel (f c) (g d)) :
    Related rel c d (modify f : CpuM Unit) (modify g : CpuM Unit) :=
  BusProgram.Simulates.pure ⟨rfl, h⟩

theorem related_ask (h : rel c d) (request : BusRequest) :
    Related rel c d (ask request) (ask request) :=
  BusProgram.Simulates.request request fun _ => .pure ⟨rfl, h⟩

theorem related_note (h : rel c d) (record : LogRecord) :
    Related rel c d (note record) (note record) :=
  BusProgram.Simulates.note rfl (.pure ⟨rfl, h⟩)

theorem related_charge (h : rel c d) (cycles : Nat) :
    Related rel c d (charge cycles) (charge cycles) :=
  related_ask h (.charge cycles)

end CpuM

/-- The same for computations that may stop with a fault: they stop with the same fault. -/
def StepM.Related (rel : Cpu → Cpu → Prop) (c d : Cpu) (x y : StepM α) : Prop :=
  CpuM.Related rel c d x.run y.run

namespace StepM

theorem related_pure (h : rel c d) (a : α) :
    Related rel c d (pure a : StepM α) (pure a : StepM α) :=
  CpuM.related_pure h (Except.ok a : Except Fault α)

theorem related_throw (h : rel c d) (fault : Fault) :
    Related rel c d (throw fault : StepM α) (throw fault : StepM α) :=
  CpuM.related_pure h (Except.error fault : Except Fault α)

theorem related_bind {x y : StepM α} {f g : α → StepM β} (h : Related rel c d x y)
    (k : ∀ a {c' d'}, rel c' d' → Related rel c' d' (f a) (g a)) :
    Related rel c d (x >>= f) (y >>= g) := by
  -- a fault of the first part is the result of the whole, on both sides
  refine CpuM.related_bind h ?_
  rintro (fault | a) c' d' h'
  · exact CpuM.related_pure h' (Except.error fault : Except Fault β)
  · exact k a h'

theorem related_lift {x y : CpuM α} (h : CpuM.Related rel c d x y) :
    Related rel c d (liftM x : StepM α) (liftM y : StepM α) :=
  CpuM.related_bind h fun a _ _ h' => CpuM.related_pure h' (Except.ok a : Except Fault α)

/-- A choice both sides make alike. -/
theorem related_ite {p : Prop} [Decidable p] {x y x' y' : StepM α} (hx : p → Related rel c d x y)
    (hx' : ¬p → Related rel c d x' y') :
    Related rel c d (if p then x else x') (if p then y else y') := by
  split_ifs with hp
  · exact hx hp
  · exact hx' hp

/-- A step that both sides take or leave out alike. -/
theorem related_when {p : Prop} [Decidable p] {x y : StepM Unit} {f g : Unit → StepM α}
    (hx : p → Related rel c d x y) (h : rel c d)
    (k : ∀ {c' d'}, rel c' d' → Related rel c' d' (f ()) (g ())) :
    Related rel c d (if p then x >>= f else f ()) (if p then y >>= g else g ()) :=
  related_ite (fun hp => related_bind (hx hp) fun _ _ _ h' => k h') fun _ => k h

theorem related_get_bind {f g : Cpu → StepM α} (h : Related rel c d (f c) (g d)) :
    Related rel c d (get >>= f) (get >>= g) := h

/-- Internal cycles pass on both sides and leave the processors as they are. -/
theorem related_charge_bind {cycles : Nat} {f g : Unit → StepM α}
    (h : Related rel c d (f ()) (g ())) :
    Related rel c d (liftM (CpuM.charge cycles) >>= f) (liftM (CpuM.charge cycles) >>= g) :=
  BusProgram.Simulates.request (.charge cycles) fun _ => h

/-- Both sides take the same note. -/
theorem related_note_bind {record : LogRecord} {f g : Unit → StepM α}
    (h : Related rel c d (f ()) (g ())) :
    Related rel c d (liftM (CpuM.note record) >>= f) (liftM (CpuM.note record) >>= g) :=
  BusProgram.Simulates.note rfl h

theorem related_set {c' d' : Cpu} (h : rel c' d') :
    Related rel c d (set c' : StepM Unit) (set d' : StepM Unit) :=
  BusProgram.Simulates.pure ⟨rfl, h⟩

theorem related_modify {f g : Cpu → Cpu} (h : rel (f c) (g d)) :
    Related rel c d (modify f : StepM Unit) (modify g : StepM Unit) :=
  BusProgram.Simulates.pure ⟨rfl, h⟩

/-- A read that both sides put alike delivers the same value or the same fault. -/
theorem related_read (h : rel c d) (width : Width) (address : Word) :
    Related rel c d (read width address) (read width address) := by
  refine related_bind (related_lift (CpuM.related_ask h (.read width address))) ?_
  rintro (fault | value) c' d' h'
  · exact related_throw h' (.bus fault)
  · exact related_pure h' value

theorem related_write (h : rel c d) (width : Width) (address : Word)
    (value : BitVec width.bits) :
    Related rel c d (write width address value) (write width address value) := by
  refine related_bind (related_lift (CpuM.related_ask h (.write width address value))) ?_
  rintro (fault | ⟨⟩) c' d' h'
  · exact related_throw h' (.bus fault)
  · exact related_pure h' ()

end StepM

end Armv4t

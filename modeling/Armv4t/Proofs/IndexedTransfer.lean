import Armv4t.Proofs.ArmForm
import Armv4t.Proofs.Congruence
import Armv4t.Proofs.Simulation

/-!
# Indexed transfers are plain transfers and an address step

A transfer that writes its base back does what two steps do: a plain transfer at the base, without
an offset, and the addition of the offset to the base.  With the offset applied first the address
step comes first, and with the offset applied last it comes last.  The two runs make the same
accesses and end in the same state; only a failed access tells them apart, which leaves an indexed
transfer without any effect.

`SingleTransfer.simulates_plain` compares the two executions access by access, and
`indexed_transfer_decomposes` states what follows for opcodes, together with the transfers whose
base is the transferred register itself.
-/

namespace Armv4t

open StepM

variable {c d : Cpu}

/-! ### Writes in a row -/

namespace Cpu

variable (cpu : Cpu)

/-- Only the last write to a register counts. -/
theorem write_write (register : Register) (first second : Word) :
    (cpu.write register first).write register second = cpu.write register second := by
  cases register <;> simp [write, instructionSet]

/-- Writes to different registers may be exchanged. -/
theorem write_comm {register other : Register} (h : register ≠ other) (first second : Word) :
    (cpu.write register first).write other second =
      (cpu.write other second).write register first := by
  cases register <;> cases other
  case low.low i j =>
    have hij : i.val ≠ j.val := fun hval => h (congrArg _ (Fin.ext hval))
    simp only [write, Vector.set_comm _ _ hij]
  case high.high i j =>
    have hij : i.val ≠ j.val := fun hval => h (congrArg _ (Fin.ext hval))
    simp only [write, Vector.set_comm _ _ hij]
  case sp.sp | lr.lr | pc.pc => exact absurd rfl h
  all_goals rfl

/-- A general register may be written before the program counter moves on or after. -/
theorem write_advanced {register : Register} (h : register ≠ .pc) (value : Word)
    (set : InstructionSet) :
    (cpu.advanced set).write register value = (cpu.write register value).advanced set := by
  cases register with
  | pc => exact absurd rfl h
  | _ => rfl

end Cpu

/-! ### Two executions side by side -/

/-- Two executions have stopped with the same fault and left the processors as they were, or have
ended with a value and left processors as related. -/
inductive BothEnd {α : Type} (value : α) (c d : Cpu) (after : Cpu → Cpu → Prop) :
    Except Fault α × Cpu → Except Fault α × Cpu → Prop
  | failed (fault : Fault) : BothEnd value c d after (.error fault, c) (.error fault, d)
  | succeeded {c' d' : Cpu} (h : after c' d') :
    BothEnd value c d after (.ok value, c') (.ok value, d')

/-- Two executions that begin with the same requests and leave the processors as they are go on
side by side. -/
theorem StepM.simulates_bind {α β : Type} {x y : StepM α} {f g : α → StepM β} {value : β}
    {after : Cpu → Cpu → Prop} (h : Related (fun c' d' => c' = c ∧ d' = d) c d x y)
    (k : ∀ a, BusProgram.Simulates Eq (BothEnd value c d after) ((f a).run.run c)
      ((g a).run.run d)) :
    BusProgram.Simulates Eq (BothEnd value c d after) ((x >>= f).run.run c)
      ((y >>= g).run.run d) := by
  refine BusProgram.Simulates.bind h ?_
  rintro ⟨result, _⟩ ⟨_, _⟩ ⟨rfl, rfl, rfl⟩
  cases result with
  | error fault => exact .pure (.failed fault)
  | ok a => exact k a

/-! ### Transfers in parts -/

namespace SingleTransfer

variable (transfer : SingleTransfer)

/-- The processor after a load: the base is written back first, so that a loaded value wins. -/
def afterLoad (sum value : Word) (cpu : Cpu) : Cpu :=
  (if transfer.indexing.writesBack ∧ transfer.base ≠ transfer.data then
    cpu.write transfer.base sum else cpu).write transfer.data value

/-- The processor after a store. -/
def afterStore (sum : Word) (cpu : Cpu) : Cpu :=
  if transfer.indexing.writesBack then cpu.write transfer.base sum else cpu

theorem executeAt_load {format : LoadFormat} (ha : transfer.access = .load format)
    (hd : transfer.data ≠ .pc) (base offset : Word) :
    transfer.executeAt base offset = (do
      let value ← format.load (transfer.address base offset)
      CpuM.charge 1
      modify (transfer.afterLoad (transfer.indexed base offset) value)
      return .next) := by
  unfold executeAt afterLoad CpuM.writeOrBranch
  simp only [ha, hd, false_and, if_false]
  -- with and without write-back, the load ends in one change of the processor
  by_cases hw : transfer.indexing.writesBack ∧ transfer.base ≠ transfer.data
  · simp only [hw, if_true, not_false_eq_true, and_self, ne_eq]
    rfl
  · simp only [hw, if_false]
    rfl

theorem executeAt_store {width : Width} (ha : transfer.access = .store width)
    (base offset : Word) :
    transfer.executeAt base offset = (do
      let cpu ← get
      width.store (transfer.address base offset) (cpu.readLate transfer.data)
      modify (transfer.afterStore (transfer.indexed base offset))
      return .next) := by
  unfold executeAt afterStore
  simp only [ha]
  -- as for a load
  by_cases hw : transfer.indexing.writesBack
  · simp only [hw, if_true]
  · simp only [hw]
    rfl

/-! ### The plain transfer -/

/-- The transfer at the base, without an offset. -/
def plain : SingleTransfer :=
  { transfer with offset := .immediate 0, indexing := .pre false }

theorem address_plain (base : Word) : transfer.plain.address base 0 = base := by
  show (if transfer.up then base + 0 else base - 0) = base
  split_ifs
  · exact BitVec.add_zero base
  · exact BitVec.sub_zero base

theorem run_plain :
    transfer.plain.execute.run.run d =
      (transfer.plain.executeAt (d.read transfer.base) 0).run.run d := by
  have hoffset : transfer.plain.offset.value d = 0 := BitVec.setWidth_zero 32 12
  rw [execute, run_get_bind, hoffset]
  rfl

theorem run_plain_load {format : LoadFormat} (ha : transfer.access = .load format)
    (hd : transfer.data ≠ .pc) :
    transfer.plain.execute.run.run d = (do
      let value ← format.load (d.read transfer.base)
      CpuM.charge 1
      modify (·.write transfer.data value)
      return Flow.next : StepM Flow).run.run d := by
  -- the plain form has no write-back
  have hback : ¬(transfer.plain.indexing.writesBack ∧ transfer.plain.base ≠ transfer.plain.data) :=
    fun h => nomatch h.1
  have hafter (sum : Word) :
      transfer.plain.afterLoad sum = fun value => (·.write transfer.data value) := by
    funext value cpu
    unfold afterLoad
    rw [if_neg hback]
    rfl
  have hload := transfer.plain.executeAt_load ha hd (d.read transfer.base) 0
  rw [transfer.address_plain, hafter] at hload
  rw [run_plain, hload]

theorem run_plain_store {width : Width} (ha : transfer.access = .store width) :
    transfer.plain.execute.run.run d = (do
      width.store (d.read transfer.base) (d.readLate transfer.data)
      return Flow.next : StepM Flow).run.run d := by
  rw [run_plain, transfer.plain.executeAt_store ha, transfer.address_plain, run_get_bind]
  rfl

theorem encodable_plain : (ArmInstruction.singleTransfer transfer.plain).Encodable := by
  have hhalfword : transfer.plain.offset.IsHalfword ∧ transfer.plain.indexing ≠ .post true :=
    ⟨rfl, nofun⟩
  show transfer.plain.Encodable
  unfold Encodable
  split
  · trivial
  · trivial
  · trivial
  · trivial
  · exact hhalfword

variable {transfer}

/-- The processors after a transfer from one processor and after its plain form from another. -/
inductive After (transfer : SingleTransfer) (c d : Cpu) (sum : Word) : Cpu → Cpu → Prop
  | loaded {format : LoadFormat} (ha : transfer.access = .load format) (value : Word) :
    After transfer c d sum (transfer.afterLoad sum value c) (d.write transfer.data value)
  | stored {width : Width} (ha : transfer.access = .store width) :
    After transfer c d sum (transfer.afterStore sum c) d

/-- Where the plain form finds the address in its base and the same register to store, it makes the
same accesses as the transfer. -/
theorem simulates_plain (hd : transfer.data ≠ .pc)
    (hbase : d.read transfer.base =
      transfer.address (c.read transfer.base) (transfer.offset.value c))
    (hstore : ∀ width, transfer.access = .store width →
      d.readLate transfer.data = c.readLate transfer.data) :
    BusProgram.Simulates Eq
      (BothEnd Flow.next c d
        (transfer.After c d (transfer.indexed (c.read transfer.base) (transfer.offset.value c))))
      (transfer.execute.run.run c) (transfer.plain.execute.run.run d) := by
  -- the first request is the access; only what is written to registers afterwards differs
  cases ha : transfer.access with
  | load format =>
    rw [transfer.run_plain_load ha hd, hbase, execute, run_get_bind,
      transfer.executeAt_load ha hd]
    apply simulates_bind (format.related_load ⟨rfl, rfl⟩ _)
    intro value
    exact .request (.charge 1) fun _ => .pure (.succeeded (.loaded ha value))
  | store width =>
    rw [transfer.run_plain_store ha, hbase, hstore width ha, execute, run_get_bind,
      transfer.executeAt_store ha, run_get_bind]
    apply simulates_bind (related_write ⟨rfl, rfl⟩ width _ _)
    intro _
    exact .pure (.succeeded (.stored ha))

end SingleTransfer

/-! ### Opcodes -/

/-- The instructions of two opcodes run beside each other, and so do the opcodes. -/
theorem Opcode.simulates_execute {opcode other : Opcode} {form form' : ArmInstruction}
    {after : Cpu → Cpu → Prop}
    (h : BusProgram.Simulates Eq (BothEnd Flow.next c d after) (form.execute.run.run c)
      (form'.execute.run.run d))
    (hf : opcode.armForm? = some form) (hc : opcode.holds c.cpsr.flags = true)
    (hr : form.refusal? = none) (hf' : other.armForm? = some form')
    (hc' : other.holds d.cpsr.flags = true) (hr' : form'.refusal? = none) :
    BusProgram.Simulates (fun _ _ => True)
      (BothEnd () c d fun c' d' => ∃ left right, after left right ∧
        c' = left.advanced opcode.instructionSet ∧ d' = right.advanced other.instructionSet)
      (opcode.execute.run.run c) (other.execute.run.run d) := by
  obtain ⟨record, htree⟩ := run_execute_of_armForm? hf hc hr
  obtain ⟨record', htree'⟩ := run_execute_of_armForm? hf' hc' hr'
  rw [htree, htree']
  refine .request (.charge 1) fun _ => .note trivial ?_
  -- what the two executions end with goes on to the next instruction in both
  refine BusProgram.Simulates.bind (h.mono (fun _ _ _ => trivial) fun _ _ => id) ?_
  rintro _ _ (fault | hafter)
  · exact .pure (.failed fault)
  · exact .pure (.succeeded ⟨_, _, hafter, rfl, rfl⟩)

/-- A run has the accesses, the result and the final bus state of another run.  When it succeeds,
its processor is that of the other run after a last step; when it fails, it has changed nothing. -/
structure Decomposes {σ : Type} (c : Cpu) (last : Cpu → Cpu)
    (run parts : BusRun σ (Except Fault Unit × Cpu)) : Prop where
  result : run.value.1 = parts.value.1
  events : run.events = parts.events
  state : run.state = parts.state
  success (h : run.value.1 = .ok ()) : run.value.2 = last parts.value.2
  failure {fault : Fault} (h : run.value.1 = .error fault) : run.value.2 = c

theorem StepM.decomposes {x y : StepM Unit} {after : Cpu → Cpu → Prop} {last : Cpu → Cpu}
    (h : BusProgram.Simulates (fun _ _ => True) (BothEnd () c d after) (x.run.run c)
      (y.run.run d))
    (hlast : ∀ c' d', after c' d' → c' = last d') {σ : Type} (bus : Bus σ) (state : σ) :
    Decomposes c last (x.runOn bus c state) (y.runOn bus d state) := by
  obtain ⟨hends, hstate, hevents, -⟩ := BusProgram.Simulates.run h (Bus.alike_self bus) rfl
  unfold runOn
  generalize (x.run.run c).run bus state = run at *
  generalize (y.run.run d).run bus state = parts at *
  obtain ⟨⟨result, c'⟩, t, events, log⟩ := run
  obtain ⟨⟨result', d'⟩, t', events', log'⟩ := parts
  -- both fail with the same fault or both end
  cases hends with
  | failed fault => exact ⟨rfl, hevents, hstate, nofun, fun _ => rfl⟩
  | succeeded hafter => exact ⟨rfl, hevents, hstate, fun _ => hlast _ _ hafter, nofun⟩

/-- A load leaves the processor as it is, whether it succeeds or fails. -/
theorem LoadFormat.ensures_load (format : LoadFormat) (address : Word) :
    Ensures c (format.load address) fun _ d => d = c := by
  have hread (width : Width) (address : Word) (f : BitVec width.bits → Word) :
      Ensures c (do return f (← StepM.read width address)) fun _ d => d = c := by
    rintro (fault | value)
    · rfl
    · rfl
  unfold load
  -- each format reads once
  cases format with
  | signedHalfword =>
    dsimp only
    split_ifs
    · exact hread .byte _ _
    · exact hread .halfword _ _
  | byte => exact hread .byte _ _
  | halfword => exact hread .halfword _ _
  | word => exact hread .word _ _
  | signedByte => exact hread .byte _ _

namespace SingleTransfer

variable {transfer : SingleTransfer} {opcode : Word} {σ : Type} (bus : Bus σ) (state : σ)

theorem refusal?_eq_none (hb : transfer.base ≠ .pc) : transfer.refusal? = none :=
  if_neg fun h => hb h.2

section Opcode

variable (hi : ArmInstruction.ofOpcode? opcode = some (.singleTransfer transfer))
  (hc : (ArmInstruction.condition opcode).holds c.cpsr.flags = true)
  (hb : transfer.base ≠ .pc)

include hi hc hb

/-- The opcode of a transfer beside that of its plain form, from a processor that has the address in
its base and the same register to store. -/
theorem decomposes_execute (hd : transfer.data ≠ .pc) {last : Cpu → Cpu}
    (hbase : d.read transfer.base =
      transfer.address (c.read transfer.base) (transfer.offset.value c))
    (hstore : ∀ width, transfer.access = .store width →
      d.readLate transfer.data = c.readLate transfer.data)
    (hlast : ∀ left right,
      transfer.After c d (transfer.indexed (c.read transfer.base) (transfer.offset.value c))
        left right → left.advanced .arm = last (right.advanced .arm)) :
    Decomposes c last ((executeArm opcode).runOn bus c state)
      ((executeArm (ArmInstruction.singleTransfer transfer.plain).opcode).runOn bus d state) := by
  have hf : (Opcode.arm opcode).armForm? = some (.singleTransfer transfer) := hi
  have hsimulates := Opcode.simulates_execute (simulates_plain hd hbase hstore) hf hc
    (refusal?_eq_none hb) (Opcode.armForm?_opcode transfer.encodable_plain)
    (Opcode.holds_opcode _ _) (refusal?_eq_none hb)
  apply StepM.decomposes hsimulates
  -- the two ends move on in the same way
  rintro _ _ ⟨left, right, hafter, rfl, rfl⟩
  exact hlast left right hafter

/-- With the offset applied first, the address step comes first. -/
theorem decomposes_pre (hd : transfer.data ≠ .pc) (hne : transfer.data ≠ transfer.base)
    (hx : transfer.indexing = .pre true) :
    let sum := transfer.indexed (c.read transfer.base) (transfer.offset.value c)
    Decomposes c id ((executeArm opcode).runOn bus c state)
      ((executeArm (ArmInstruction.singleTransfer transfer.plain).opcode).runOn bus
        (c.write transfer.base sum) state) := by
  intro sum
  have hback : transfer.indexing.writesBack = true := by rw [hx]; rfl
  apply decomposes_execute bus state hi hc hb hd
  -- the base that has been written is the address of the plain access
  · rw [c.read_write sum hb, if_pos rfl, address, hx]
  · intro width _
    unfold Cpu.readLate
    rw [if_neg hd, if_neg hd, c.read_write sum hb, if_neg hne]
  -- the plain access leaves the data where the whole transfer does, with the base written before
  · rintro _ _ (⟨ha, value⟩ | ha)
    · unfold afterLoad
      rw [if_pos ⟨hback, hne.symm⟩]
      rfl
    · unfold afterStore
      rw [if_pos hback]
      rfl

/-- With the offset applied last, the address step comes last. -/
theorem decomposes_post (hd : transfer.data ≠ .pc) (hne : transfer.data ≠ transfer.base)
    {mark : Bool} (hx : transfer.indexing = .post mark) :
    let sum := transfer.indexed (c.read transfer.base) (transfer.offset.value c)
    Decomposes c (·.write transfer.base sum) ((executeArm opcode).runOn bus c state)
      ((executeArm (ArmInstruction.singleTransfer transfer.plain).opcode).runOn bus c state) := by
  intro sum
  have hback : transfer.indexing.writesBack = true := by rw [hx]; rfl
  apply decomposes_execute bus state hi hc hb hd
  · rw [address, hx]
  · exact fun _ _ => rfl
  -- the base is written after the access, in either order with the data
  · rintro _ _ (⟨ha, value⟩ | ha)
    · unfold afterLoad
      rw [if_pos ⟨hback, hne.symm⟩, Cpu.write_advanced _ hb, c.write_comm hne.symm]
    · unfold afterStore
      rw [if_pos hback, Cpu.write_advanced _ hb]

/-- A load into its own base leaves the loaded value there. -/
theorem decomposes_loadBase (heq : transfer.data = transfer.base) {format : LoadFormat}
    (ha : transfer.access = .load format) :
    let address := transfer.address (c.read transfer.base) (transfer.offset.value c)
    Decomposes c id ((executeArm opcode).runOn bus c state)
      ((executeArm (ArmInstruction.singleTransfer transfer.plain).opcode).runOn bus
        (c.write transfer.base address) state) := by
  intro address
  apply decomposes_execute bus state hi hc hb (heq ▸ hb)
  · rw [c.read_write address hb, if_pos rfl]
  · intro width hstore
    rw [ha] at hstore
    nomatch hstore
  -- the data overwrite the base, whatever was written back
  · rintro _ _ (⟨-, value⟩ | hstore)
    · unfold afterLoad
      rw [if_neg fun h => h.2 heq.symm, heq, c.write_write]
      rfl
    · rw [ha] at hstore
      nomatch hstore

/-- A store makes one access, of the register as it was, and then writes the base back. -/
theorem run_store {width : Width} (ha : transfer.access = .store width) :
    let base := c.read transfer.base
    let offset := transfer.offset.value c
    let run := (executeArm opcode).runOn bus c state
    ∃ answer, run.events = [.charge 1, .write width (width.align (transfer.address base offset))
        ((c.readLate transfer.data).setWidth width.bits) answer] ∧
      (answer = .ok () → run.value =
        (.ok (), (transfer.afterStore (transfer.indexed base offset) c).advanced .arm)) ∧
      ∀ fault, answer = .error fault → run.value = (.error (.bus fault), c) := by
  intro base offset run
  have hf : (Opcode.arm opcode).armForm? = some (.singleTransfer transfer) := hi
  have hyields : Yields c (Opcode.arm opcode).execute fun events result d =>
      ∃ answer, events = [.charge 1, .write width (width.align (transfer.address base offset))
          ((c.readLate transfer.data).setWidth width.bits) answer] ∧
        (answer = .ok () → (result, d) =
          (.ok (), (transfer.afterStore (transfer.indexed base offset) c).advanced .arm)) ∧
        ∀ fault, answer = .error fault → (result, d) = (.error (.bus fault), c) := by
    apply Opcode.yields_execute hf hc (refusal?_eq_none hb)
    show Yields c (get >>= fun cpu => _) _
    apply yields_get_bind
    rw [transfer.executeAt_store ha]
    rintro (fault | ⟨⟩)
    -- a refused write changes nothing
    · refine ⟨.error fault, rfl, nofun, ?_⟩
      rintro _ ⟨⟩
      rfl
    · exact ⟨.ok (), rfl, fun _ => rfl, nofun⟩
  exact BusProgram.Yields.run hyields bus state

end Opcode

/-- A transfer that loads no program counter keeps the status. -/
theorem ensures_cpsr (hd : transfer.data ≠ .pc) :
    Ensures c transfer.execute fun _ d => d.cpsr = c.cpsr := by
  apply ensures_get_bind
  cases ha : transfer.access with
  | load format =>
    rw [transfer.executeAt_load ha hd]
    refine ensures_bind (format.ensures_load _) ?_ fun _ _ hended => congrArg Cpu.cpsr hended
    -- the base and the data go to registers other than the program counter, and no status
    intro value d hloaded _
    rw [← hloaded]
    show (transfer.afterLoad _ value d).cpsr = d.cpsr
    unfold afterLoad
    rw [Cpu.cpsr_write]
    split_ifs
    · exact d.cpsr_write _ _
    · rfl
  | store width =>
    rw [transfer.executeAt_store ha]
    rintro (fault | ⟨⟩)
    · rfl
    · show (transfer.afterStore _ c).cpsr = c.cpsr
      unfold afterStore
      split_ifs
      · exact c.cpsr_write _ _
      · rfl

theorem cpsr_execute (hi : ArmInstruction.ofOpcode? opcode = some (.singleTransfer transfer))
    (hc : (ArmInstruction.condition opcode).holds c.cpsr.flags = true)
    (hb : transfer.base ≠ .pc) (hd : transfer.data ≠ .pc) :
    ((executeArm opcode).runOn bus c state).value.2.cpsr = c.cpsr := by
  have hf : (Opcode.arm opcode).armForm? = some (.singleTransfer transfer) := hi
  have hinstruction : Yields c transfer.execute fun _ _ d => d.cpsr = c.cpsr :=
    BusProgram.Always.yields (ensures_cpsr hd)
  have hopcode : Yields c (Opcode.arm opcode).execute fun _ _ d => d.cpsr = c.cpsr := by
    apply Opcode.yields_execute hf hc (refusal?_eq_none hb)
    -- moving on keeps the status, and so does a fault
    refine BusProgram.Yields.mono hinstruction ?_
    rintro _ ⟨_ | _ | _, d⟩ hcpsr
    · exact hcpsr
    · exact hcpsr
    · exact hcpsr
  exact BusProgram.Yields.run hopcode bus state

end SingleTransfer

/-- **Indexed transfers decompose into an address step and a plain transfer.**  A transfer that
applies its offset first and writes back is the address step and then the plain transfer, and one
that applies it last is the plain transfer and then the address step, but a failed access leaves no
trace of the step.  If the base is the transferred register itself, a load leaves the loaded value
in it, and a store stores the old base and then writes back.  The status never changes. -/
theorem indexed_transfer_decomposes {opcode : Word} {transfer : SingleTransfer} (c : Cpu)
    (hi : ArmInstruction.ofOpcode? opcode = some (.singleTransfer transfer))
    (hc : (ArmInstruction.condition opcode).holds c.cpsr.flags = true)
    (hd : transfer.data ≠ .pc) (hb : transfer.base ≠ .pc) {σ : Type} (bus : Bus σ) (state : σ) :
    let base := c.read transfer.base
    let offset := transfer.offset.value c
    let sum := transfer.indexed base offset
    let address := transfer.address base offset
    let plain := (ArmInstruction.singleTransfer transfer.plain).opcode
    let run := (executeArm opcode).runOn bus c state
    (transfer.data ≠ transfer.base →
      (transfer.indexing = .pre true →
        Decomposes c id run ((executeArm plain).runOn bus (c.write transfer.base sum) state)) ∧
      ∀ mark, transfer.indexing = .post mark →
        Decomposes c (·.write transfer.base sum) run ((executeArm plain).runOn bus c state)) ∧
    (transfer.data = transfer.base → transfer.indexing.writesBack = true →
      (∀ format, transfer.access = .load format →
        Decomposes c id run
          ((executeArm plain).runOn bus (c.write transfer.base address) state)) ∧
      ∀ width, transfer.access = .store width →
        ∃ answer, run.events =
            [.charge 1, .write width (width.align address) (base.setWidth width.bits) answer] ∧
          (answer = .ok () →
            run.value = (.ok (), (c.write transfer.base sum).advanced .arm)) ∧
          ∀ fault, answer = .error fault → run.value = (.error (.bus fault), c)) ∧
    run.value.2.cpsr = c.cpsr := by
  intro base offset sum address plain run
  refine ⟨fun hne => ⟨fun hx => ?_, fun mark hx => ?_⟩, fun heq hback => ⟨?_, ?_⟩, ?_⟩
  · exact SingleTransfer.decomposes_pre bus state hi hc hb hd hne hx
  · exact SingleTransfer.decomposes_post bus state hi hc hb hd hne hx
  · exact fun format ha => SingleTransfer.decomposes_loadBase bus state hi hc hb heq ha
  -- the base is stored as it was, and only then written back
  · intro width ha
    obtain ⟨answer, hevents, hok, herror⟩ := SingleTransfer.run_store bus state hi hc hb ha
    have hvalue : c.readLate transfer.data = base := by
      rw [heq]
      exact if_neg hb
    rw [hvalue] at hevents
    refine ⟨answer, hevents, fun h => (hok h).trans ?_, herror⟩
    rw [SingleTransfer.afterStore, if_pos hback]
  · exact SingleTransfer.cpsr_execute bus state hi hc hb hd

/-- A load through a base that is raised by itself, rotated through the carry: from address 12. -/
theorem indexed_transfer_decomposes_rotated :
    let opcode : Word := 0xE7B10061
    let c := Cpu.reset.write (.low 1) 8
    let memory : Memory := { regions := [⟨0, 64, false⟩] }
    let run := (executeArm opcode).runOn Memory.bus c memory
    let transfer := ArmInstruction.ofSingleTransfer opcode
    ArmInstruction.ofOpcode? opcode = some (.singleTransfer transfer) ∧
      transfer.data ≠ .pc ∧ transfer.base ≠ .pc ∧
      Decomposes c id run
        ((executeArm (ArmInstruction.singleTransfer transfer.plain).opcode).runOn Memory.bus
          (c.write (.low 1) 12) memory) := by
  intro opcode c memory run transfer
  -- the offset is R1 rotated through the carry, half of its eight
  have hi : ArmInstruction.ofOpcode? opcode = some (.singleTransfer transfer) := by decide
  have h := indexed_transfer_decomposes c hi (by decide) (by decide) (by decide) Memory.bus memory
  have hpre := (h.1 (by decide)).1 (by decide)
  have hsum : transfer.indexed (c.read transfer.base) (transfer.offset.value c) = 12 := by decide
  have hbase : transfer.base = .low 1 := by decide
  rw [hsum, hbase] at hpre
  exact ⟨hi, by decide, by decide, hpre⟩

end Armv4t

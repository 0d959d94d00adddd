import Armv4t.Proofs.Endings
import Armv4t.Proofs.Trapping.Run
import Armv4t.Proofs.UserMode

/-!
# What exception entry changes, and which interrupts nest

`Exception.Entry` states the change that entry makes, cell by cell and with the status as a word.  A
request on an interrupt line is an entry if the line is not masked and nothing at all if it is.
Entry masks the line that it comes from, and entry to the fast interrupt masks both lines.  So the
lines that may still be taken (`Psr.unmasked`) get fewer with every request that is taken, and of
requests one after the other **at most one is taken on each line, and none on the IRQ line after one
on the FIQ line** (`raise_exact_and_interrupts_nest`).
-/

namespace Armv4t

/-! ### The change -/

/-- The change from an interrupted processor to the processor in the handler of an exception. -/
structure Exception.Entry (exception : Exception) (c d : Cpu) : Prop where
  /-- The status names the mode of the handler and the ARM instruction set. -/
  mode : Psr.modeField d.cpsr.toWord = exception.mode.bits
  arm : d.cpsr.toWord.getLsbD 5 = false
  fiqDisable : d.cpsr.toWord.getLsbD 6 =
    (exception = .reset || exception = .fastInterruptRequest || c.cpsr.toWord.getLsbD 6)
  irqDisable : d.cpsr.toWord.getLsbD 7 = true
  /-- All other bits of the status are kept. -/
  status {i : Nat} (h : 8 ≤ i) : d.cpsr.toWord.getLsbD i = c.cpsr.toWord.getLsbD i
  /-- The mode of the handler keeps the old status and the address to return to. -/
  saved : d.spsrs.get exception.mode.bank = c.cpsr.toWord
  link : d.readIn exception.mode .lr = c.fetchAddress + exception.returnOffset c.instructionSet
  pc : d.pc = exception.vector + 8
  /-- Every other register of every mode, and the saved status of every other bank, are kept. -/
  registers {mode : Mode} {register : Register} (hr : register ≠ .pc)
    (hl : register = .lr → mode ≠ exception.mode) :
    d.readIn mode register = c.readIn mode register
  spsrs {bank : Bank} (hb : bank ≠ exception.mode.bank) : d.spsrs.get bank = c.spsrs.get bank

namespace Exception

variable (exception : Exception)

/-- No mode but its own sees the registers of a handler. -/
theorem bank_eq_iff {mode : Mode} : mode.bank = exception.mode.bank ↔ mode = exception.mode := by
  cases exception <;> cases mode <;> decide

theorem disablesFiq_eq :
    exception.disablesFiq = (exception = .reset || exception = .fastInterruptRequest : Bool) := by
  cases exception <;> rfl

theorem entry_entered (c : Cpu) : exception.Entry c (c.entered exception) where
  mode := Psr.modeField_toWord _
  arm := Psr.getLsbD_toWord_instructionSet _
  fiqDisable := by
    rw [Psr.getLsbD_toWord_fiqDisable, Psr.getLsbD_toWord_fiqDisable, ← disablesFiq_eq]
    rfl
  irqDisable := Psr.getLsbD_toWord_irqDisable _
  status h := by
    have hflags : (c.entered exception).cpsr.flags = c.cpsr.flags := rfl
    exact Psr.getLsbD_toWord_congr _ hflags rfl h
  saved := by rw [Cpu.get_spsrs_entered, if_pos rfl]
  link := by rw [Cpu.readIn_entered _ _ _ (by decide), if_pos ⟨rfl, rfl⟩, Cpu.returnAddress]
  pc := by cases exception <;> rfl
  registers hr hl := by
    rw [Cpu.readIn_entered _ _ _ hr, if_neg]
    -- a link register in another bank than the handler's stays
    rintro ⟨hlr, hb⟩
    exact hl hlr (exception.bank_eq_iff.1 hb)
  spsrs hb := by rw [Cpu.get_spsrs_entered, if_neg hb]

/-- The requests by which entry tells the bus where execution goes on. -/
def entryEvents : List BusEvent :=
  [.branch exception.vector .arm, .charge 2]

theorem branchEvents_handling (c : Cpu) :
    (c.handling exception).branchEvents exception.vector = exception.entryEvents := by
  cases exception <;> rfl

end Exception

variable {c : Cpu}

theorem CpuM.yields_raise_entered (exception : Exception) :
    Yields c (raise exception) fun events _ d =>
      events = exception.entryEvents ∧ d = c.entered exception := by
  refine BusProgram.Yields.mono (yields_raise exception) ?_
  rintro _ ⟨_, _⟩ ⟨rfl, rfl⟩
  exact ⟨exception.branchEvents_handling c, rfl⟩

/-- On a host that traps, entry comes to its end and leaves the same. -/
theorem Trapping.run_raise (exception : Exception) {σ : Type} (bus : Bus σ) (state : σ) :
    (((Trapping.raise exception).run.run c.cells).run bus state).value =
      (.ok (), (c.entered exception).cells) := by
  have hfollows : Follows c.cells c (Trapping.raise exception) (liftM (CpuM.raise exception)) :=
    follows_raise exception
  obtain ⟨⟨hresult, hcells⟩, -, -, -⟩ :=
    BusProgram.Simulates.run hfollows (Bus.alike_self bus) (rfl : state = state)
  rw [run_lift] at hresult hcells
  have hentered : ((CpuM.raise exception).run c |>.run bus state).value.2 = c.entered exception :=
    (CpuM.ensures_raise exception).run bus state
  exact Prod.ext hresult (hcells.trans (congrArg Cpu.cells hentered))

/-! ### Requests on the interrupt lines -/

/-- The bit of the status that masks the line. -/
def InterruptLine.maskBit : InterruptLine → Nat
  | irq => 7
  | fiq => 6

theorem CpuM.isMasked_eq (line : InterruptLine) (psr : Psr) :
    isMasked line psr = psr.toWord.getLsbD line.maskBit := by
  cases line with
  | irq => exact psr.getLsbD_toWord_irqDisable.symm
  | fiq => exact psr.getLsbD_toWord_fiqDisable.symm

section Request

variable {line : InterruptLine} {σ : Type} (bus : Bus σ) (state : σ)

theorem CpuM.run_requestInterrupt_of_masked (h : isMasked line c.cpsr = true) :
    ((requestInterrupt line).run c).run bus state = ⟨(false, c), state, [], []⟩ := by
  have hrun : (requestInterrupt line).run c = pure (false, c) := by
    change (if isMasked line c.cpsr then (pure false : CpuM Bool) else _).run c = _
    rw [if_pos h]
    rfl
  rw [hrun]
  rfl

theorem CpuM.run_requestInterrupt_of_not_masked (h : isMasked line c.cpsr = false) :
    let raised := ((raise line.exception).run c).run bus state
    ((requestInterrupt line).run c).run bus state =
      { raised with value := (true, raised.value.2) } := by
  intro raised
  have hrun : (requestInterrupt line).run c =
      ((raise line.exception).run c).bind fun ended => .pure (true, ended.2) := by
    -- a request that is not held back is the entry, with the answer behind it
    change (if isMasked line c.cpsr then (pure false : CpuM Bool) else _).run c = _
    rw [if_neg (by rw [h]; decide)]
    rfl
  rw [hrun, BusProgram.run_bind]
  simp only [BusProgram.run_pure, List.append_nil, raised]

end Request

/-! ### Requests one after the other -/

/-- The interrupt lines that are not masked, in the order in which their requests can be taken. -/
def Psr.unmasked (psr : Psr) : List InterruptLine :=
  [.irq, .fiq].filter fun line => !CpuM.isMasked line psr

/-- A request that is taken uses up its line and those before it. -/
theorem Psr.cons_unmasked_sublist {psr : Psr} {line : InterruptLine}
    (h : CpuM.isMasked line psr = false) :
    (line :: (line.exception.handlerPsr psr).unmasked).Sublist psr.unmasked := by
  cases line with
  -- an interrupt that is taken holds back further ones of its own line
  | irq =>
    have hirq : psr.irqDisable = false := h
    simp [unmasked, CpuM.isMasked, Exception.handlerPsr, InterruptLine.exception,
      Exception.disablesFiq, List.filter, hirq]
  | fiq =>
    -- a fast one holds back the other line as well, whether or not that was open
    have hfiq : psr.fiqDisable = false := h
    cases hirq : psr.irqDisable <;>
      simp [unmasked, CpuM.isMasked, Exception.handlerPsr, InterruptLine.exception,
        Exception.disablesFiq, List.filter, hfiq, hirq]

namespace CpuM

/-- Requests on interrupt lines one after the other, with the lines on which they are taken. -/
def requestAll : List InterruptLine → CpuM (List InterruptLine)
  | [] => return []
  | line :: rest => do
    let taken ← requestInterrupt line
    let others ← requestAll rest
    return if taken then line :: others else others

theorem ensures_requestInterrupt (line : InterruptLine) :
    Ensures c (requestInterrupt line) fun taken d =>
      (taken = false ∧ d = c) ∨
        (taken = true ∧ isMasked line c.cpsr = false ∧ d = c.entered line.exception) := by
  unfold requestInterrupt
  refine ensures_get_bind ?_
  split_ifs with h
  · exact ensures_pure (.inl ⟨rfl, rfl⟩)
  · refine ensures_bind (ensures_raise line.exception) ?_
    rintro _ d rfl
    exact ensures_pure (.inr ⟨rfl, Bool.eq_false_iff.2 h, rfl⟩)

/-- Requests are taken on lines that are not masked, each once and in order, by induction on the
requests. -/
theorem ensures_requestAll (lines : List InterruptLine) :
    Ensures c (requestAll lines) fun taken _ => taken.Sublist c.cpsr.unmasked := by
  induction lines generalizing c with
  | nil => exact ensures_pure (List.nil_sublist _)
  | cons line rest ih =>
    refine ensures_bind (ensures_requestInterrupt line) ?_
    rintro taken d (⟨rfl, rfl⟩ | ⟨rfl, hmask, rfl⟩)
    · exact ensures_bind ih fun others e hothers => ensures_pure hothers
    · refine ensures_bind ih fun others e hothers => ensures_pure ?_
      exact (hothers.cons_cons line).trans (Psr.cons_unmasked_sublist hmask)

end CpuM

/-- **Raising an exception makes the change of entry and no other, a request on an interrupt line
does so exactly if its mask bit is clear, and interrupts nest once on each line.**  The entry always
succeeds, also where arithmetic can trap; a request that is not taken leaves the processor as it is
and asks the bus for nothing. -/
theorem raise_exact_and_interrupts_nest (c : Cpu) {σ : Type} (bus : Bus σ) (state : σ) :
    (∀ exception : Exception,
      let run := ((CpuM.raise exception).run c).run bus state
      let host := ((Trapping.raise exception).run.run c.cells).run bus state
      exception.Entry c run.value.2 ∧ run.events = exception.entryEvents ∧
        host.value = (.ok (), run.value.2.cells)) ∧
    (∀ line : InterruptLine,
      let run := ((CpuM.requestInterrupt line).run c).run bus state
      let raised := ((CpuM.raise line.exception).run c).run bus state
      if c.cpsr.toWord.getLsbD line.maskBit then run = ⟨(false, c), state, [], []⟩
      else run = { raised with value := (true, raised.value.2) }) ∧
    ∀ lines : List InterruptLine,
      let taken := (((CpuM.requestAll lines).run c).run bus state).value.1
      taken.count .irq ≤ 1 ∧ taken.count .fiq ≤ 1 ∧ ¬List.Sublist [.fiq, .irq] taken := by
  refine ⟨fun exception => ?_, fun line => ?_, fun lines => ?_⟩
  · obtain ⟨hevents, hended⟩ :=
      BusProgram.Yields.run (CpuM.yields_raise_entered (c := c) exception) bus state
    dsimp only
    -- the host's run is that of the processor on its cells
    rw [hended, Trapping.run_raise]
    exact ⟨exception.entry_entered c, hevents, rfl⟩
  · dsimp only
    rw [← CpuM.isMasked_eq]
    split_ifs with h
    · exact CpuM.run_requestInterrupt_of_masked bus state h
    · exact CpuM.run_requestInterrupt_of_not_masked bus state (Bool.eq_false_iff.2 h)
  -- what is taken is a part of what was open, which names each line once, the fast one last
  · have htaken : (((CpuM.requestAll lines).run c).run bus state).value.1.Sublist [.irq, .fiq] :=
      ((CpuM.ensures_requestAll lines).run bus state).trans List.filter_sublist
    refine ⟨htaken.count_le _, htaken.count_le _, fun h => ?_⟩
    exact absurd (h.trans htaken) (by decide)

end Armv4t

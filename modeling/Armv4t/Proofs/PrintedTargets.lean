import Armv4t.Proofs.Cycles
import Armv4t.Proofs.ThumbText

/-!
# The targets that branches are printed with

The text of a branch ends in the address at which it goes on.  It is computed from the address of
the opcode, whereas execution computes it from the program counter, which lies ahead by two
instructions, and both wrap around at the ends of the address space.

Main statement: **what is printed is what is reached** (`printedTarget_reached`).  This holds of
every branch by an offset whose condition holds, where the bus is told the same address; of the
first half of a call, whose text shows what it leaves in the link register; and of a call that is
read from the bus as two halves and printed as one instruction.
-/

namespace Armv4t

open Assembly StepM

variable {c : Cpu}

/-- The address that a line consists of besides its mnemonic. -/
def Assembly.Line.target? (line : Line) : Option Word :=
  match line.operands with
  | [.address target] => some target
  | _ => none

/-- The target that is printed in a text. -/
def printedTarget? (text : String) : Option Word :=
  (Line.ofText? text).bind Line.target?

/-- An opcode is a branch by an offset, and it is taken under the given flags. -/
def Opcode.BranchesByOffset (flags : Flags) : Opcode → Prop
  | arm word =>
    ∃ link offset, ArmInstruction.ofOpcode? word = some (.branch link offset) ∧
      (ArmInstruction.condition word).holds flags = true
  | thumb halfword =>
    (∃ condition offset, ThumbInstruction.ofOpcode? halfword =
      some (.conditionalBranch condition offset) ∧ condition.holds flags = true) ∨
    ∃ offset, ThumbInstruction.ofOpcode? halfword = some (.branch offset)

/-- The text of an opcode fetched from an address. -/
def Opcode.text (address : Word) : Opcode → String
  | arm word => disassembleArm word address
  | thumb halfword => disassembleThumb halfword address

namespace Cpu.Jumps

variable {d ended : Cpu} {address : Word} {events : List BusEvent} {outcome : Except Fault Unit}

theorem fetchAddress_eq (h : d.Jumps address events outcome ended) :
    ended.fetchAddress = d.instructionSet.align address := by
  rw [h.ended, fetchAddress_branched]

/-- The bus is told where execution goes on. -/
theorem notices_eq (h : d.Jumps address events outcome ended) :
    BusEvent.notices events = [(ended.fetchAddress, d.instructionSet)] := by
  rw [h.events, h.fetchAddress_eq]
  exact d.notices_branchEvents address

end Cpu.Jumps

/-! ### Printed targets -/

/-- The text of an ARM branch. -/
theorem printedTarget?_branch {word : Word} {link : Bool} {offset : BitVec 24}
    (hi : ArmInstruction.ofOpcode? word = some (.branch link offset)) (address : Word) :
    printedTarget? (disassembleArm word address) =
      some (ArmInstruction.branchTarget address offset) := by
  have hlink : IsWord ("b" ++ if link then "l" else "") := by
    cases link <;> decide
  -- one mnemonic and one operand, which is the target
  have hmnemonic := hlink.append (lacks_conditionText (ArmInstruction.condition word))
  have hline := Line.ofText?_one hmnemonic
    (operands?_address (ArmInstruction.branchTarget address offset))
  unfold disassembleArm printedTarget?
  rw [hi]
  show (Line.ofText? (_ ++ " " ++ Numeral.address _)).bind _ = _
  rw [hline]
  rfl

/-- The text of a Thumb instruction. -/
theorem printedTarget?_thumb {halfword : Halfword} {instruction : ThumbInstruction}
    (hi : ThumbInstruction.ofOpcode? halfword = some instruction) (address : Word) :
    printedTarget? (disassembleThumb halfword address) = (instruction.line address).target? := by
  unfold printedTarget?
  rw [ofText?_disassembleThumb, hi]
  rfl

/-! ### Branches by an offset -/

/-- A branch by an offset goes a distance of whole instructions from the program counter, and its
text says where that leads from the address of the opcode. -/
theorem Opcode.yields_branchByOffset {opcode : Opcode}
    (h : opcode.BranchesByOffset c.cpsr.flags) (address : Word) :
    ∃ (distance : Word) (d : Cpu), d.instructionSet = c.instructionSet ∧
      opcode.instructionSet.align distance = distance ∧
      printedTarget? (opcode.text address) =
        some (address + opcode.instructionSet.lookahead + distance) ∧
      Yields c opcode.execute (d.Jumps (c.pc + distance)) := by
  rcases opcode with word | halfword
  · obtain ⟨link, offset, hi, hholds⟩ := h
    -- a link changes neither the instruction set nor the program counter
    have hset : (c.linked link).instructionSet = c.instructionSet := by
      cases link <;> rfl
    have haligned : InstructionSet.arm.align (ArmInstruction.branchDistance offset) =
        ArmInstruction.branchDistance offset :=
      InstructionSet.align_of_eq (ArmInstruction.branchDistance_eq offset)
    exact ⟨_, _, hset, haligned, printedTarget?_branch hi address, yields_branch hi hholds⟩
  · obtain ⟨condition, offset, hi, hholds⟩ | ⟨offset, hi⟩ := h
    -- a branch whose condition holds, and then one without
    · have haligned : InstructionSet.thumb.align (ThumbInstruction.conditionalDistance offset) =
          ThumbInstruction.conditionalDistance offset :=
        InstructionSet.align_of_eq (ThumbInstruction.conditionalDistance_eq offset)
      exact ⟨_, c, rfl, haligned, printedTarget?_thumb hi address,
        yields_conditionalBranch hi hholds⟩
    · have haligned : InstructionSet.thumb.align (ThumbInstruction.branchDistance offset) =
          ThumbInstruction.branchDistance offset :=
        InstructionSet.align_of_eq (ThumbInstruction.branchDistance_eq offset)
      exact ⟨_, c, rfl, haligned, printedTarget?_thumb hi address, yields_thumbBranch hi⟩

/-! ### Calls -/

/-- The high part of the offset of a call, from the program counter and from the address. -/
theorem Cpu.pc_add_callHigh (hs : c.instructionSet = .thumb) (high : BitVec 11) :
    c.pc + ThumbInstruction.callHigh high = ThumbInstruction.callBase c.fetchAddress high := by
  rw [c.pc_eq, hs]
  rfl

/-- The first half of a call leaves the target in its text in the link register. -/
theorem Opcode.yields_callFirst_text {first : Halfword} (hs : c.instructionSet = .thumb)
    (h : isCallFirst first = true) :
    Yields c (executeThumb first) fun _ result d => result = .ok () ∧
      disassembleThumb first c.fetchAddress =
        "bl_1 " ++ Numeral.address (d.read .lr).toNat := by
  -- the first half of a call is told by its highest bits
  obtain ⟨high, hi⟩ : ∃ high, ThumbInstruction.ofOpcode? first = some (.callFirst high) := by
    unfold isCallFirst at h
    grind
  have htext : disassembleThumb first c.fetchAddress = "bl_1 " ++
      Numeral.address (ThumbInstruction.callBase c.fetchAddress high).toNat := by
    unfold disassembleThumb
    rw [hi]
    rfl
  apply BusProgram.Yields.mono (yields_callFirst hi)
  rintro events ⟨result, d⟩ ⟨hok, hd⟩
  -- the link register holds what the text says
  have hlink : d.read .lr = ThumbInstruction.callBase c.fetchAddress high := by
    rw [show d = _ from hd, ← Cpu.pc_add_callHigh hs]
    rfl
  exact ⟨hok, hlink ▸ htext⟩

/-- The halves of a call lead to the target that is worked out from both. -/
theorem Opcode.yields_callTarget {first second : Halfword} {target : Word} (hc : c.AtBoundary)
    (hs : c.instructionSet = .thumb)
    (h : callTarget? first second c.fetchAddress = some target) :
    Yields c (do executeThumb first; executeThumb second) fun _ result d =>
      result = .ok () ∧ d.fetchAddress = target := by
  obtain ⟨high, low, hfirst, hsecond, htarget⟩ : ∃ high low,
      ThumbInstruction.ofOpcode? first = some (.callFirst high) ∧
        ThumbInstruction.ofOpcode? second = some (.callSecond low) ∧
        ThumbInstruction.callBase c.fetchAddress high + ThumbInstruction.callLow low = target := by
    unfold callTarget? at h
    grind
  -- the two halves of the distance make up a multiple of an instruction
  have hbase := Cpu.pc_add_callHigh hs high
  have haligned : c.instructionSet.align target = target := by
    rw [← htarget, ← hbase, BitVec.add_assoc, ThumbInstruction.callHigh_add_callLow]
    exact Width.align_add hc (hs ▸ InstructionSet.thumb.align_ofInt _)
  apply BusProgram.Yields.mono (yields_call hfirst hsecond)
  rintro events ⟨result, d⟩ ⟨hok, hd⟩
  refine ⟨hok, ?_⟩
  rw [show d = _ from hd, Cpu.fetchAddress_branched, Cpu.instructionSet_write, hbase, htarget,
    haligned]

/-- A call in one line is no single instruction. -/
theorem ThumbInstruction.ofLine?_call (address target : Word) :
    ofLine? address ⟨"bl", [.address target]⟩ = none := by
  have hcondition : Condition.ofText? ['l'] = none := by decide
  simp [ofLine?, ofList?, ofDistance?, hcondition]

/-- The text of a call. -/
theorem ofText?_call (target : Word) :
    Line.ofText? ("bl " ++ Numeral.address target.toNat) = some ⟨"bl", [.address target]⟩ := by
  have hline := Line.ofText?_one (show IsWord "bl" by decide) (operands?_address target)
  exact hline

/-- No single Thumb opcode is written like a call. -/
theorem disassembleThumb_ne_call (opcode : Halfword) (address target : Word) :
    disassembleThumb opcode address ≠ "bl " ++ Numeral.address target.toNat := by
  intro h
  have hlines := ofText?_disassembleThumb opcode address
  rw [h, ofText?_call] at hlines
  have hline := Option.some.inj hlines
  cases hi : ThumbInstruction.ofOpcode? opcode with
  | none =>
    rw [hi] at hline
    have hmnemonic : "bl" = "undefined" := congrArg Line.mnemonic hline
    exact absurd hmnemonic (by decide)
  | some instruction =>
    -- an instruction is read back from its line, but no instruction from this one
    rw [hi] at hline
    have hread := ThumbInstruction.ofLine?_line (ThumbInstruction.decoded_of_ofOpcode? hi) address
    rw [← show _ = instruction.line address from hline, ThumbInstruction.ofLine?_call] at hread
    cases hread

/-- In Thumb state, a text is that of the halfword at the fetch address, or that of a call whose
halves are this one and the one behind it. -/
theorem ends_disassembleNext (hs : c.instructionSet = .thumb) :
    Ends c disassembleNext fun events text _ =>
      (∃ opcode, text = disassembleThumb opcode c.fetchAddress) ∨
        ∃ first second target, events = [.read .halfword c.fetchAddress (.ok first),
            .read .halfword (c.fetchAddress + 2) (.ok second)] ∧
          callTarget? first second c.fetchAddress = some target ∧
          text = "bl " ++ Numeral.address target.toNat := by
  apply ends_get_bind
  dsimp only
  rw [hs]
  apply ends_read_bind
  intro first
  split_ifs
  -- the first halfword announces a call, and only then is another one read
  · apply ends_read_bind
    intro second
    cases ht : callTarget? first second c.fetchAddress with
    | some target => exact ends_pure (.inr ⟨first, second, target, rfl, ht, rfl⟩)
    | none => exact ends_pure (.inl ⟨first, rfl⟩)
  · exact ends_pure (.inl ⟨first, rfl⟩)

/-! ### What is printed and what is reached -/

/-- What is printed is what is reached.  Every branch by an offset that is taken goes on, in its own
instruction set, at the target that its text at the fetch address ends in, and the bus is told where
execution goes on.  The first half of a call leaves in the link register what its text shows.  When
the disassembly of the next instruction gives a call, it has read two halfwords which, executed one
after the other on any bus, lead to the target of the call.  No address is excepted: the text and
the execution wrap around alike. -/
theorem printedTarget_reached (hc : c.AtBoundary) {σ : Type} (bus : Bus σ) (state : σ) :
    (∀ opcode : Opcode, opcode.BranchesByOffset c.cpsr.flags →
      let run := opcode.execute.runOn bus c state
      let ended := run.value.2
      ∃ target, printedTarget? (opcode.text c.fetchAddress) = some target ∧
        run.value.1 = .ok () ∧
        BusEvent.notices run.events = [(ended.fetchAddress, c.instructionSet)] ∧
        (opcode.instructionSet = c.instructionSet → ended.fetchAddress = target)) ∧
    (c.instructionSet = .thumb → ∀ first, isCallFirst first = true →
      let run := (executeThumb first).runOn bus c state
      let ended := run.value.2
      run.value.1 = .ok () ∧ disassembleThumb first c.fetchAddress =
        "bl_1 " ++ Numeral.address (ended.read .lr).toNat) ∧
    (c.instructionSet = .thumb → ∀ target : Word,
      let read := disassembleNext.runOn bus c state
      read.value.1 = .ok ("bl " ++ Numeral.address target.toNat) →
        ∃ first second, read.events = [.read .halfword c.fetchAddress (.ok first),
            .read .halfword (c.fetchAddress + 2) (.ok second)] ∧
          ∀ {τ : Type} (later : Bus τ) (time : τ),
            let run := (do executeThumb first; executeThumb second : StepM Unit).runOn later c time
            let ended := run.value.2
            run.value.1 = .ok () ∧ ended.fetchAddress = target) := by
  refine ⟨?_, ?_, ?_⟩
  · intro opcode h run ended
    obtain ⟨distance, d, hset, haligned, hprinted, hyields⟩ :=
      opcode.yields_branchByOffset h c.fetchAddress
    have hjumps := BusProgram.Yields.run hyields bus state
    have hnotices : BusEvent.notices run.events = [(ended.fetchAddress, d.instructionSet)] :=
      hjumps.notices_eq
    have hreached : ended.fetchAddress = d.instructionSet.align (c.pc + distance) :=
      hjumps.fetchAddress_eq
    rw [hset] at hnotices hreached
    refine ⟨_, hprinted, hjumps.outcome, hnotices, ?_⟩
    -- in its own set, the program counter lies ahead as the text has it
    intro hown
    rw [hown] at haligned
    have hboundary : c.instructionSet.align (c.pc + distance) = c.pc + distance :=
      Width.align_add hc haligned
    rw [hreached, hboundary, hown, ← c.pc_eq]
  · intro hs first h
    exact BusProgram.Yields.run (Opcode.yields_callFirst_text hs h) bus state
  · intro hs target read htext
    rcases (ends_disassembleNext hs).run htext with
      ⟨opcode, hsingle⟩ | ⟨first, second, joined, hevents, ht, hjoined⟩
    · exact absurd hsingle.symm (disassembleThumb_ne_call opcode c.fetchAddress target)
    · obtain rfl : target = joined := by
        have hline := congrArg Line.ofText? hjoined
        rw [ofText?_call, ofText?_call] at hline
        simpa using hline
      refine ⟨first, second, hevents, ?_⟩
      intro τ later time
      exact BusProgram.Yields.run (Opcode.yields_callTarget hc hs ht) later time

/-- A bus on which the last word of the address space holds the two halves of a call. -/
def callBus : Bus Unit where
  answer
    | .read .halfword address, _ => (.ok (if address = 0xFFFFFFFC then 0xF000 else 0xF804), ())
    | .read _ _, _ => (.ok 0, ())
    | .write .., _ => (.ok (), ())
    | .charge _, _ => ((), ())
    | .branch .., _ => ((), ())

/-- A processor in Thumb state whose next instruction is in the last word of the address space. -/
def lastWord : Cpu :=
  { Cpu.reset.withInstructionSet .thumb with pc := 0 }

/-- From the last word of the address space, targets wrap around. -/
theorem printedTarget_reached_wrapped :
    let branched := ((executeThumb 0xE000).runOn callBus lastWord ()).value.2
    let halved := ((executeThumb 0xF000).runOn callBus lastWord ()).value.2
    let called := ((do executeThumb 0xF000; executeThumb 0xF804 : StepM Unit).runOn callBus
      lastWord ()).value.2
    lastWord.fetchAddress = 0xFFFFFFFC ∧
      disassembleThumb 0xE000 0xFFFFFFFC = "b 0x00000000" ∧ branched.fetchAddress = 0 ∧
      disassembleThumb 0xF000 0xFFFFFFFC = "bl_1 " ++ Numeral.address (halved.read .lr).toNat ∧
      (disassembleNext.runOn callBus lastWord ()).value.1 = .ok "bl 0x00000008" ∧
      called.fetchAddress = 8 := by
  intro branched halved called
  -- the last word of the address space is at a boundary
  have hc : lastWord.AtBoundary := by
    show _ = _
    decide
  obtain ⟨hbranches, hfirst, hjoined⟩ := printedTarget_reached hc callBus ()
  have htaken : (Opcode.thumb 0xE000).BranchesByOffset lastWord.cpsr.flags := .inr ⟨0, by decide⟩
  obtain ⟨target, hprinted, -, -, hreached⟩ := hbranches (.thumb 0xE000) htaken
  obtain rfl : target = 0 := by
    have hzero : printedTarget? (disassembleThumb 0xE000 lastWord.fetchAddress) = some 0 := by
      decide
    exact Option.some.inj (hprinted.symm.trans hzero)
  have htext : (disassembleNext.runOn callBus lastWord ()).value.1 = .ok "bl 0x00000008" := by
    decide
  obtain ⟨first, second, hevents, hcalled⟩ := hjoined rfl 8 htext
  -- the two halves that were read
  have hread : (disassembleNext.runOn callBus lastWord ()).events =
      [.read .halfword lastWord.fetchAddress (.ok 0xF000),
        .read .halfword (lastWord.fetchAddress + 2) (.ok 0xF804)] := rfl
  obtain ⟨rfl, rfl⟩ : first = 0xF000 ∧ second = 0xF804 := by
    simpa [BusEvent.read] using hevents.symm.trans hread
  refine ⟨by decide, by decide, hreached rfl, (hfirst rfl 0xF000 (by decide)).2, htext, ?_⟩
  exact (hcalled callBus ()).2

end Armv4t

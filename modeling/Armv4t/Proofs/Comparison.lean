import Armv4t.Proofs.Cycles
import Armv4t.Proofs.DataProcessing

/-!
# Conditions after a comparison

Main statement: after an opcode of either instruction set that compares two words, each condition
holds exactly when the words compare as its name says (`conditions_after_comparison`).  The
conditions come in pairs of a test and its negation, so that of two ARM opcodes that differ in the
lowest bit of the condition one is executed and the other passed over.
-/

namespace Armv4t

open StepM

variable {c : Cpu} {a b : Word}

/-! ### What the conditions say -/

namespace Condition

/-- How two words compare when a condition holds after their comparison. -/
def Compares (condition : Condition) (a b : Word) : Prop :=
  match condition with
  | equal => a = b
  | notEqual => a ≠ b
  | unsignedHigherOrSame => b.toNat ≤ a.toNat
  | unsignedLower => a.toNat < b.toNat
  | negative => (a - b).toInt < 0
  | positiveOrZero => 0 ≤ (a - b).toInt
  | overflow => a.toInt - b.toInt < -2 ^ 31 ∨ 2 ^ 31 ≤ a.toInt - b.toInt
  | noOverflow => -2 ^ 31 ≤ a.toInt - b.toInt ∧ a.toInt - b.toInt < 2 ^ 31
  | unsignedHigher => b.toNat < a.toNat
  | unsignedLowerOrSame => a.toNat ≤ b.toNat
  | signedGreaterOrEqual => b.toInt ≤ a.toInt
  | signedLess => a.toInt < b.toInt
  | signedGreater => b.toInt < a.toInt
  | signedLessOrEqual => a.toInt ≤ b.toInt
  | always => True
  | never => False

/-- The flags after a comparison. -/
theorem setBy_comparison {before after : Flags}
    (h : Flags.SetBy (subtractWithCarry a b true) before after) :
    (after.negative = true ↔ (a - b).toInt < 0) ∧ (after.zero = true ↔ a = b) ∧
      (after.carry = true ↔ b.toNat ≤ a.toNat) ∧
      (after.overflow = true ↔
        a.toInt - b.toInt < -2 ^ 31 ∨ 2 ^ 31 ≤ a.toInt - b.toInt) := by
  have hnegative := h.negative
  have hzero := h.zero
  have hcarry := h.carry
  have hoverflow := h.overflow
  rw [value_subtractWithCarry_true] at hnegative hzero
  rw [subtractWithCarry_eq_ofExact] at hcarry hoverflow
  refine ⟨hnegative, ?_, ?_, ?_⟩
  -- the difference is zero only between equal words
  · rw [hzero]
    constructor
    · intro heq
      bv_omega
    · rintro rfl
      exact BitVec.sub_self a
  · rw [hcarry]
    simp [AluResult.ofExact]
  · rw [hoverflow]
    simp [AluResult.ofExact]

/-- The wrapped difference has the wrong sign exactly when the difference is out of range. -/
theorem le_toInt_iff (a b : Word) :
    ((a - b).toInt < 0 ↔ a.toInt - b.toInt < -2 ^ 31 ∨ 2 ^ 31 ≤ a.toInt - b.toInt) ↔
      b.toInt ≤ a.toInt := by
  have ha := a.isLt
  have hb := b.isLt
  rw [BitVec.toInt_eq_toNat_cond, BitVec.toInt_eq_toNat_cond, BitVec.toInt_eq_toNat_cond,
    BitVec.toNat_sub]
  omega

/-- After a comparison, a condition holds exactly when the words compare as it says. -/
theorem holds_after_comparison (condition : Condition) {before after : Flags}
    (h : Flags.SetBy (subtractWithCarry a b true) before after) :
    condition.holds after = true ↔ condition.Compares a b := by
  obtain ⟨hnegative, hzero, hcarry, hoverflow⟩ := setBy_comparison h
  -- equality is read off the zero flag, as of words, of their magnitudes or in two's complement
  have hunsigned : a = b ↔ a.toNat = b.toNat := BitVec.toNat_inj.symm
  have hsigned : a = b ↔ a.toInt = b.toInt := BitVec.toInt_inj.symm
  -- the sign and the overflow together tell the signed order
  have horder := le_toInt_iff a b
  rw [← hnegative, ← hoverflow, ← Bool.eq_iff_iff] at horder
  cases condition with
  | equal => exact hzero
  | unsignedHigherOrSame => exact hcarry
  | negative => exact hnegative
  | overflow => exact hoverflow
  -- the other conditions are complements and combinations of these
  | notEqual =>
    show (!after.zero) = true ↔ a ≠ b
    rw [Bool.not_eq_true', ← Bool.not_eq_true, hzero]
  | unsignedLower =>
    show (!after.carry) = true ↔ a.toNat < b.toNat
    rw [Bool.not_eq_true', ← Bool.not_eq_true, hcarry, not_le]
  | positiveOrZero =>
    show (!after.negative) = true ↔ 0 ≤ (a - b).toInt
    rw [Bool.not_eq_true', ← Bool.not_eq_true, hnegative, not_lt]
  | noOverflow =>
    show (!after.overflow) = true ↔
      -2 ^ 31 ≤ a.toInt - b.toInt ∧ a.toInt - b.toInt < 2 ^ 31
    rw [Bool.not_eq_true', ← Bool.not_eq_true, hoverflow]
    omega
  | unsignedHigher =>
    show (after.carry && !after.zero) = true ↔ b.toNat < a.toNat
    rw [Bool.and_eq_true, Bool.not_eq_true', ← Bool.not_eq_true, hcarry, hzero, hunsigned]
    omega
  | unsignedLowerOrSame =>
    show (!after.carry || after.zero) = true ↔ a.toNat ≤ b.toNat
    rw [Bool.or_eq_true, Bool.not_eq_true', ← Bool.not_eq_true, hcarry, hzero, hunsigned]
    omega
  | signedGreaterOrEqual =>
    show (after.negative == after.overflow) = true ↔ b.toInt ≤ a.toInt
    rw [beq_iff_eq, horder]
  | signedLess =>
    show (after.negative != after.overflow) = true ↔ a.toInt < b.toInt
    rw [bne_iff_ne, ne_eq, horder, not_le]
  | signedGreater =>
    show (!after.zero && after.negative == after.overflow) = true ↔ b.toInt < a.toInt
    rw [Bool.and_eq_true, Bool.not_eq_true', ← Bool.not_eq_true, hzero, beq_iff_eq, horder,
      hsigned]
    omega
  | signedLessOrEqual =>
    show (after.zero || after.negative != after.overflow) = true ↔ a.toInt ≤ b.toInt
    rw [Bool.or_eq_true, hzero, bne_iff_ne, ne_eq, horder, hsigned]
    omega
  | always => exact iff_of_true rfl trivial
  | never => exact iff_of_false Bool.false_ne_true id

/-- Below 14, codes that differ in their lowest bit name opposite conditions. -/
theorem holds_xor_one (flags : Flags) : ∀ code : BitVec 4, code < 14 →
    (ofField (code ^^^ 1)).holds flags = !(ofField code).holds flags := by
  obtain ⟨negative, zero, carry, overflow⟩ := flags
  revert negative zero carry overflow
  decide

/-- A condition with an odd code below 14 is the negation of the one before it. -/
theorem holds_of_odd (flags : Flags) {code : BitVec 4} (hlt : code < 14)
    (hodd : code.getLsbD 0 = true) :
    (ofField code).holds flags = !(ofField (code - 1)).holds flags := by
  have hbefore : code - 1 = code ^^^ 1 := by
    revert code
    decide
  rw [hbefore, holds_xor_one flags code hlt, Bool.not_not]

end Condition

/-! ### Comparisons -/

/-- The words that an ARM instruction compares, if it is a comparison: CMP, or SUB with S to another
register than the program counter. -/
def ArmInstruction.compared? (cpu : Cpu) : ArmInstruction → Option (Word × Word)
  | dataProcessing instruction =>
    if instruction.operation = .cmp ∨ instruction.operation = .sub ∧
        instruction.setFlags = true ∧ instruction.destination ≠ .pc then
      some (instruction.second.operandValue cpu instruction.first,
        (instruction.second.output cpu).value)
    else none
  | _ => none

/-- The words that a Thumb instruction compares, if it is a comparison: one of the formats of CMP,
or of SUB on low registers, which always sets the flags. -/
def ThumbInstruction.compared? (cpu : Cpu) : ThumbInstruction → Option (Word × Word)
  | addSubtract true (.register other) source _ =>
    some (cpu.read (.low source), cpu.read (.low other))
  | addSubtract true (.immediate value) source _ =>
    some (cpu.read (.low source), value.setWidth 32)
  | immediate .compare target value => some (cpu.read (.low target), value.setWidth 32)
  | immediate .subtract target value => some (cpu.read (.low target), value.setWidth 32)
  | alu (.process .cmp) source destination =>
    some (cpu.read (.low destination), cpu.read (.low source))
  | highRegister .compare source destination => some (cpu.read destination, cpu.read source)
  | _ => none

/-- The words that an opcode compares, if it is a comparison. -/
def Opcode.compared? (cpu : Cpu) : Opcode → Option (Word × Word)
  | arm word => (ArmInstruction.ofOpcode? word).bind (·.compared? cpu)
  | thumb halfword => (ThumbInstruction.ofOpcode? halfword).bind (·.compared? cpu)

namespace DataProcessing

/-- An instruction that goes on with the next one and sets the flags after a subtraction. -/
structure Compares (instruction : DataProcessing) (c : Cpu) (a b : Word) : Prop where
  setsFlags : instruction.operation.isTest = true ∨ instruction.setFlags = true
  not_writesPc : ¬instruction.WritesPc
  result : instruction.result c = subtractWithCarry a b true

end DataProcessing

theorem ArmInstruction.exists_compares {instruction : ArmInstruction}
    (h : instruction.compared? c = some (a, b)) :
    ∃ form, instruction = .dataProcessing form ∧ form.Compares c a b := by
  cases instruction with
  | dataProcessing form =>
    unfold compared? at h
    dsimp only at h
    split_ifs at h with hcompare
    obtain ⟨rfl, rfl⟩ := Prod.mk.inj (Option.some.inj h)
    -- what the form computes is what its operation makes of the operands read for the comparison
    have hresult : form.result c = form.operation.evaluate
        (form.second.operandValue c form.first) (form.second.output c) c.cpsr.flags.carry := by
      rw [← ShifterOperand.readBeside_eq, ← ShifterOperand.shifted_eq_output]
      rfl
    refine ⟨form, rfl, ?_, ?_, ?_⟩
    -- it is a comparison, or a subtraction that sets flags
    · rcases hcompare with hop | ⟨-, hs, -⟩
      · exact .inl (by rw [hop]; rfl)
      · exact .inr hs
    -- a comparison has no destination, and the subtraction none that branches
    · rintro ⟨ht, hr⟩
      rcases hcompare with hop | ⟨-, -, hpc⟩
      · rw [hop] at ht
        exact absurd ht (by decide)
      · exact hpc hr
    · rw [hresult]
      rcases hcompare with hop | ⟨hop, -, -⟩
      · rw [hop]
        rfl
      · rw [hop]
        rfl
  | _ => exact absurd h (by simp [compared?])

theorem ThumbInstruction.exists_compares {instruction : ThumbInstruction}
    (h : instruction.compared? c = some (a, b)) :
    ∃ form, instruction.armForm? = some (.dataProcessing form) ∧ form.Compares c a b := by
  -- an immediate of a Thumb opcode is one without rotation in the ARM form
  have himmediate (value : BitVec 8) (first : Word) :
      subtractWithCarry first ((ShifterOperand.immediate value 0).shifted c).value true =
        subtractWithCarry first (value.setWidth 32) true := by
    rw [ShifterOperand.shifted_immediate]
  cases instruction with
  | addSubtract subtract operand source destination =>
    rcases subtract with _ | _
    · exact absurd h (by simp [compared?])
    · rcases operand with other | value
      · obtain ⟨rfl, rfl⟩ := Prod.mk.inj (Option.some.inj h)
        exact ⟨_, rfl, .inr rfl, fun hw => absurd hw.2 (by simp), rfl⟩
      · obtain ⟨rfl, rfl⟩ := Prod.mk.inj (Option.some.inj h)
        refine ⟨_, rfl, .inr rfl, fun hw => absurd hw.2 (by simp), ?_⟩
        have hwidth : (value.setWidth 8).setWidth 32 = value.setWidth 32 := by
          simp
        rw [← hwidth]
        exact himmediate (value.setWidth 8) _
  | immediate operation target value =>
    rcases operation with _ | _ | _ | _
    · exact absurd h (by simp [compared?])
    · obtain ⟨rfl, rfl⟩ := Prod.mk.inj (Option.some.inj h)
      exact ⟨_, rfl, .inl rfl, fun hw => absurd hw.1.symm Bool.false_ne_true, himmediate value _⟩
    · exact absurd h (by simp [compared?])
    · obtain ⟨rfl, rfl⟩ := Prod.mk.inj (Option.some.inj h)
      exact ⟨_, rfl, .inr rfl, fun hw => absurd hw.2 (by simp [flagForm]), himmediate value _⟩
  | alu operation source destination =>
    rcases operation with operation | kind | _ | _
    · cases operation with
      | cmp =>
        obtain ⟨rfl, rfl⟩ := Prod.mk.inj (Option.some.inj h)
        exact ⟨_, rfl, .inl rfl, fun hw => absurd hw.1.symm Bool.false_ne_true, rfl⟩
      | _ => exact absurd h (by simp [compared?])
    · exact absurd h (by simp [compared?])
    · exact absurd h (by simp [compared?])
    · exact absurd h (by simp [compared?])
  | highRegister operation source destination =>
    rcases operation with _ | _ | _ | _
    · exact absurd h (by simp [compared?])
    · obtain ⟨rfl, rfl⟩ := Prod.mk.inj (Option.some.inj h)
      exact ⟨_, rfl, .inl rfl, fun hw => absurd hw.1.symm Bool.false_ne_true, rfl⟩
    · exact absurd h (by simp [compared?])
    · exact absurd h (by simp [compared?])
  | _ => exact absurd h (by simp [compared?])

/-- A comparison of either set is the ARM instruction that sets the flags after a subtraction. -/
theorem Opcode.exists_compares {opcode : Opcode} (h : opcode.compared? c = some (a, b)) :
    ∃ form, opcode.armForm? = some (.dataProcessing form) ∧ form.Compares c a b := by
  rcases opcode with word | halfword
  · obtain ⟨instruction, hi, hcompared⟩ := Option.bind_eq_some_iff.1 h
    obtain ⟨form, rfl, hform⟩ := instruction.exists_compares hcompared
    exact ⟨form, hi, hform⟩
  · obtain ⟨instruction, hi, hcompared⟩ := Option.bind_eq_some_iff.1 h
    obtain ⟨form, hf, hform⟩ := instruction.exists_compares hcompared
    exact ⟨form, Option.bind_eq_some_iff.2 ⟨instruction, hi, hf⟩, hform⟩

/-- A comparison sets the flags after the difference. -/
theorem Opcode.yields_comparison {opcode : Opcode} (hc : opcode.holds c.cpsr.flags = true)
    (h : opcode.compared? c = some (a, b)) :
    Yields c opcode.execute fun _ result d =>
      result = .ok () ∧ Flags.SetBy (subtractWithCarry a b true) c.cpsr.flags d.cpsr.flags := by
  obtain ⟨form, hf, hform⟩ := exists_compares h
  apply BusProgram.Yields.mono (form.yields_opcode_of_not_writesPc hform.not_writesPc hf hc)
  rintro events ⟨result, d⟩ ⟨hresult, -, hd⟩
  dsimp only at hresult hd
  refine ⟨hresult, ?_⟩
  -- the flags that the instruction leaves are those after its result
  have hset := c.cpsr.flags.setBy_after (form.result c)
  rw [← form.flags_updated hform.setsFlags, hform.result] at hset
  rw [hd]
  exact hset

/-! ### Pairs of ARM opcodes -/

section Pairs

variable {σ : Type} (bus : Bus σ) (state : σ) (c : Cpu)

/-- The ARM opcode is executed, or refused, rather than passed over. -/
def ExecutesArm (opcode : Word) : Prop :=
  ((executeArm opcode).runOn bus c state).log.head? = some (.executesArm c.fetchAddress opcode)

/-- The ARM opcode is passed over: but for a cycle and the program counter, nothing happens. -/
structure PassesOverArm (opcode : Word) : Prop where
  value : ((executeArm opcode).runOn bus c state).value = (.ok (), c.advanced .arm)
  events : ((executeArm opcode).runOn bus c state).events = [.charge 1]
  log : ((executeArm opcode).runOn bus c state).log =
    [.skips c.fetchAddress opcode (ArmInstruction.condition opcode)]

variable {opcode : Word}

theorem executesArm_of_holds
    (hc : (ArmInstruction.condition opcode).holds c.cpsr.flags = true) :
    ExecutesArm bus state c opcode := by
  unfold ExecutesArm executeArm
  -- the condition is looked up after the cycle, on the same processor
  show (BusProgram.run bus ((ite _ _ _ : StepM Unit).run.run c) _).log.head? = _
  rw [if_pos hc]
  rfl

theorem passesOverArm_of_not_holds
    (hc : (ArmInstruction.condition opcode).holds c.cpsr.flags = false) :
    PassesOverArm bus state c opcode := by
  -- the run is known as a whole, a cycle and the next instruction
  have htree := run_executeArm_of_not_holds hc
  have hrun : (executeArm opcode).runOn bus c state =
    ((executeArm opcode).run.run c).run bus state := rfl
  rw [htree] at hrun
  constructor
  · rw [hrun]
    rfl
  · rw [hrun]
    rfl
  · rw [hrun]
    rfl

/-- The conditions of two opcodes that differ in the lowest bit of it are opposite. -/
theorem holds_partner (flags : Flags) (h : opcode.extractLsb' 28 4 < 14) :
    (ArmInstruction.condition (opcode ^^^ 0x10000000)).holds flags =
      !(ArmInstruction.condition opcode).holds flags := by
  have hfield : (opcode ^^^ 0x10000000).extractLsb' 28 4 = opcode.extractLsb' 28 4 ^^^ 1 :=
    BitVec.extractLsb'_xor
  unfold ArmInstruction.condition
  rw [hfield]
  exact Condition.holds_xor_one flags _ h

end Pairs

/-! ### The theorem -/

/-- **Conditions after a comparison mean what their names say.**  After an opcode of either set that
compares two words, each condition holds exactly when the words compare so.  Under any flags the odd
codes below 14 are the negations of the codes before them, and so of two ARM opcodes that differ in
the lowest bit of the condition exactly one is executed. -/
theorem conditions_after_comparison {σ : Type} (bus : Bus σ) (state : σ) (c : Cpu) :
    (∀ (opcode : Opcode) (a b : Word), opcode.holds c.cpsr.flags = true →
      opcode.compared? c = some (a, b) →
      let run := opcode.execute.runOn bus c state
      run.value.1 = .ok () ∧ ∀ condition : Condition,
        condition.holds run.value.2.cpsr.flags = true ↔ condition.Compares a b) ∧
    (∀ (flags : Flags) (code : BitVec 4), code < 14 → code.getLsbD 0 = true →
      (Condition.ofField code).holds flags = !(Condition.ofField (code - 1)).holds flags) ∧
    ∀ opcode : Word, opcode.extractLsb' 28 4 < 14 →
      ExecutesArm bus state c opcode ∧ PassesOverArm bus state c (opcode ^^^ 0x10000000) ∨
      PassesOverArm bus state c opcode ∧ ExecutesArm bus state c (opcode ^^^ 0x10000000) := by
  refine ⟨?_, ?_, ?_⟩
  · intro opcode a b hc hcompared
    obtain ⟨hok, hflags⟩ := BusProgram.Yields.run (Opcode.yields_comparison hc hcompared) bus state
    exact ⟨hok, fun condition => condition.holds_after_comparison hflags⟩
  · intro flags code hlt hodd
    exact Condition.holds_of_odd flags hlt hodd
  · intro opcode h
    have hpartner := holds_partner c.cpsr.flags h
    -- either condition holds, and then the other does not
    by_cases hc : (ArmInstruction.condition opcode).holds c.cpsr.flags = true
    · left
      rw [hc] at hpartner
      exact ⟨executesArm_of_holds bus state c hc, passesOverArm_of_not_holds bus state c hpartner⟩
    · right
      have hnot := Bool.eq_false_iff.2 hc
      rw [hnot] at hpartner
      exact ⟨passesOverArm_of_not_holds bus state c hnot, executesArm_of_holds bus state c hpartner⟩

/-- The least signed word compared with 1 by a Thumb opcode: less as a signed number, greater as an
unsigned one, with an overflow that makes the difference positive. -/
theorem conditions_after_comparison_overflow :
    let start := ((Cpu.reset.withInstructionSet .thumb).write (.ofField 0#4) 0x80000000).write
      (.ofField 1#4) 1
    let run := (Opcode.thumb 0x4288).execute.runOn Memory.bus start { regions := [] }
    let flags := run.value.2.cpsr.flags
    (run.value.1 = .ok () ∧ Condition.signedLess.holds flags = true ∧
      Condition.unsignedHigher.holds flags = true ∧ Condition.overflow.holds flags = true ∧
      Condition.positiveOrZero.holds flags = true) ∧
    (Condition.ofField 11).holds flags = !(Condition.ofField 10).holds flags ∧
    (ExecutesArm Memory.bus { regions := [] } start 0x01A00001 ∧
        PassesOverArm Memory.bus { regions := [] } start 0x11A00001 ∨
      PassesOverArm Memory.bus { regions := [] } start 0x01A00001 ∧
        ExecutesArm Memory.bus { regions := [] } start 0x11A00001) := by
  intro start run flags
  obtain ⟨hcompare, hpairs, hopcodes⟩ :=
    conditions_after_comparison Memory.bus { regions := [] } start
  -- the opcode is `CMP R0, R1`
  obtain ⟨hok, hholds⟩ := hcompare (.thumb 0x4288) 0x80000000 1 rfl (by decide)
  refine ⟨⟨hok, ?_, ?_, ?_, ?_⟩, ?_, ?_⟩
  · exact (hholds .signedLess).2 (show (0x80000000 : Word).toInt < (1 : Word).toInt by decide)
  · exact (hholds .unsignedHigher).2 (show (1 : Word).toNat < (0x80000000 : Word).toNat by decide)
  · exact (hholds .overflow).2 (.inl (by decide))
  · exact (hholds .positiveOrZero).2
      (show 0 ≤ ((0x80000000 : Word) - 1).toInt by decide)
  · exact hpairs flags 11 (by decide) (by decide)
  · exact hopcodes 0x01A00001 (by decide)

end Armv4t

import Armv4t.Proofs.ArmForm
import Mathlib.Algebra.Order.Ring.Int
import Mathlib.Tactic.Ring

/-!
# Multiplications

Main statement: a multiplication leaves in its destination the product, plus what is accumulated,
cut down to one word or two, whatever registers the destinations share with the operands
(`multiplication_exact`).  Products are taken of integers, unsigned or signed, and no product of two
words is too great for 64 bits (`Multiplier.toInt_product`, `Multiplier.toNat_product`).
-/

namespace Armv4t

open StepM

variable {c : Cpu}

/-! ### Products -/

namespace Multiplier

/-- The integer that a multiplication takes a word for. -/
def reading (signed : Bool) (word : Word) : Int :=
  if signed then word.toInt else word.toNat

/-- The product of unsigned words is a double word. -/
theorem toNat_product (a b : Word) : (product a b false).toNat = a.toNat * b.toNat := by
  have hlt : a.toNat * b.toNat < 2 ^ 32 * 2 ^ 32 := Nat.mul_lt_mul'' a.isLt b.isLt
  have ha : a.toNat % 2 ^ 64 = a.toNat := Nat.mod_eq_of_lt (by omega)
  have hb : b.toNat % 2 ^ 64 = b.toNat := Nat.mod_eq_of_lt (by omega)
  show (a.setWidth 64 * b.setWidth 64).toNat = a.toNat * b.toNat
  rw [BitVec.toNat_mul, BitVec.toNat_setWidth, BitVec.toNat_setWidth, ha, hb]
  exact Nat.mod_eq_of_lt hlt

/-- The product of signed words is a signed double word. -/
theorem toInt_product (a b : Word) : (product a b true).toInt = a.toInt * b.toInt := by
  have hle : a.toInt * b.toInt ≤ 2 ^ 62 := BitVec.toInt_mul_toInt_le
  have hge : -2 ^ 62 ≤ a.toInt * b.toInt := by
    have hbound : -(2 ^ 62) ≤ a.toInt * b.toInt := BitVec.le_toInt_mul_toInt
    exact hbound
  show (a.signExtend 64 * b.signExtend 64).toInt = a.toInt * b.toInt
  rw [BitVec.toInt_mul, BitVec.toInt_signExtend_of_le (by decide),
    BitVec.toInt_signExtend_of_le (by decide)]
  apply Int.bmod_eq_of_le
  · omega
  · omega

/-- Read either way, the operands have the product up to multiples of what a double word holds. -/
theorem toNat_product_emod (a b : Word) (signed : Bool) :
    ((product a b signed).toNat : Int) = reading signed a * reading signed b % 2 ^ 64 := by
  have hlt := (product a b signed).isLt
  cases signed with
  | false =>
    have hproduct : ((product a b false).toNat : Int) = a.toNat * b.toNat := by
      exact_mod_cast toNat_product a b
    show _ = (a.toNat : Int) * b.toNat % 2 ^ 64
    rw [← hproduct]
    omega
  -- the signed product is that of the words in two's complement
  | true =>
    show _ = a.toInt * b.toInt % 2 ^ 64
    rw [← toInt_product, BitVec.toInt_eq_toNat_cond]
    omega

end Multiplier

/-! ### Results -/

/-- The exact result of a multiplication: the product, plus the addend if there is one. -/
def Multiply.exact (operation : Multiply) (cpu : Cpu) : Nat :=
  let product := (cpu.read operation.multiplicand).toNat * (cpu.read operation.multiplier).toNat
  match operation.addend with
  | some addend => product + (cpu.read addend).toNat
  | none => product

theorem Multiply.toNat_result (operation : Multiply) (cpu : Cpu) :
    (operation.result cpu).toNat = operation.exact cpu % 2 ^ 32 := by
  unfold result exact
  cases operation.addend with
  | none => exact BitVec.toNat_mul _ _
  | some addend =>
    dsimp only
    rw [BitVec.toNat_add, BitVec.toNat_mul, Nat.mod_add_mod]

/-- The two words of the destination as one number. -/
def LongMultiply.pair (operation : LongMultiply) (cpu : Cpu) : BitVec 64 :=
  cpu.read operation.destinationHigh ++ cpu.read operation.destinationLow

/-- A double word is made of its two words. -/
theorem append_halves (double : BitVec 64) :
    (double.extractLsb' 32 32 ++ double.extractLsb' 0 32 : BitVec (32 + 32)) = double := by
  apply BitVec.eq_of_getLsbD_eq
  intro i hi
  rw [BitVec.getLsbD_append, BitVec.getLsbD_extractLsb', BitVec.getLsbD_extractLsb']
  by_cases hlow : i < 32
  · rw [if_pos hlow, decide_eq_true hlow, Bool.true_and, Nat.zero_add]
  · have hhigh : i - 32 < 32 := by omega
    have hsum : 32 + (i - 32) = i := by omega
    rw [if_neg hlow, decide_eq_true hhigh, Bool.true_and, hsum]

/-- The exact result of a long multiplication: the product of the operands, read as unsigned or as
signed numbers, plus the old destination in an accumulation. -/
def LongMultiply.exact (operation : LongMultiply) (cpu : Cpu) : Int :=
  let product := Multiplier.reading operation.signed (cpu.read operation.multiplicand) *
    Multiplier.reading operation.signed (cpu.read operation.multiplier)
  if operation.accumulate then product + (operation.pair cpu).toNat else product

theorem LongMultiply.toNat_result (operation : LongMultiply) (cpu : Cpu) :
    ((operation.result cpu).toNat : Int) = operation.exact cpu % 2 ^ 64 := by
  have hproduct := Multiplier.toNat_product_emod (cpu.read operation.multiplicand)
    (cpu.read operation.multiplier) operation.signed
  unfold result exact pair
  dsimp only
  generalize Multiplier.reading operation.signed (cpu.read operation.multiplicand) *
    Multiplier.reading operation.signed (cpu.read operation.multiplier) = product at hproduct ⊢
  split_ifs
  · rw [BitVec.toNat_add]
    omega
  · exact hproduct

/-! ### What an opcode leaves -/

/-- The status after a result of some length: with S the sign and the zeroness of the result, no
carry, and the overflow as it was. -/
def Psr.afterProduct {w : Nat} (psr : Psr) (setFlags : Bool) (result : BitVec w) : Psr :=
  if setFlags then
    { psr with flags := ⟨result.getLsbD (w - 1), decide (result = 0), false, psr.flags.overflow⟩ }
  else psr

/-- Setting the flags after a result gives the status after it, and moves no register. -/
theorem Cpu.AgreesBut.withProduct {w : Nat} {written : Register → Prop} {d : Cpu}
    (h : c.AgreesBut c.mode written d) (result : BitVec w) :
    c.ChangedTo (c.cpsr.afterProduct true result) written (d.withFlags { d.cpsr.flags with
      negative := result.msb
      zero := result == 0
      carry := false }) := by
  have hchanged := h.changedTo.withFlags { c.cpsr.flags with
    negative := result.msb
    zero := result == 0
    carry := false }
  -- the status is still the one before, so that the flags are its own with three replaced
  rw [h.cpsr]
  unfold Psr.afterProduct
  rw [if_pos rfl, ← BitVec.msb_eq_getLsbD_last]
  exact hchanged

namespace Multiply

variable {operation : Multiply}

/-- The processor after a multiplication, before the program counter moves on. -/
def updated (operation : Multiply) (cpu : Cpu) : Cpu :=
  let written := cpu.write operation.destination (operation.result cpu)
  if operation.setFlags then written.withFlagsAfter ⟨operation.result cpu, some false, none⟩
  else written

theorem yields_updated (operation : Multiply) :
    CpuM.Yields c operation.execute fun _ flow d => flow = .next ∧ d = operation.updated c := by
  unfold execute updated
  apply CpuM.yields_get_bind
  apply CpuM.yields_charge_bind
  apply CpuM.yields_silent_bind (CpuM.yields_writeRegister _ _)
  intro _
  by_cases hs : operation.setFlags = true
  · rw [if_pos hs, if_pos hs]
    exact ⟨rfl, rfl⟩
  · rw [if_neg hs, if_neg hs]
    exact ⟨rfl, rfl⟩

variable (hpc : operation.destination ≠ .pc)

include hpc

theorem read_updated : (operation.updated c).read operation.destination = operation.result c := by
  have hread : (c.write operation.destination (operation.result c)).read operation.destination =
      operation.result c := by
    rw [Cpu.read_write _ _ hpc, if_pos rfl]
  unfold updated
  dsimp only
  split_ifs
  · exact (Cpu.read_withFlags _ _ _).trans hread
  · exact hread

theorem pc_updated : (operation.updated c).pc = c.pc := by
  unfold updated
  dsimp only
  split_ifs
  · exact c.pc_write _ hpc
  · exact c.pc_write _ hpc

theorem changedTo_updated :
    c.ChangedTo (c.cpsr.afterProduct operation.setFlags (operation.result c))
      (· = operation.destination) (operation.updated c) := by
  -- the result is written before the flags
  have hagrees : c.AgreesBut c.mode (· = operation.destination)
      (c.write operation.destination (operation.result c)) := by
    apply Cpu.AgreesBut.write (.refl c) _ hpc
    rfl
  unfold updated
  by_cases hs : operation.setFlags = true
  · rw [if_pos hs, hs]
    exact hagrees.withProduct _
  · rw [if_neg hs, Bool.eq_false_iff.2 hs]
    exact hagrees.changedTo

end Multiply

namespace LongMultiply

variable {operation : LongMultiply}

@[inherit_doc Multiply.updated]
def updated (operation : LongMultiply) (cpu : Cpu) : Cpu :=
  let result := operation.result cpu
  let written := (cpu.write operation.destinationLow (result.extractLsb' 0 32)).write
    operation.destinationHigh (result.extractLsb' 32 32)
  if operation.setFlags then
    written.withFlags { written.cpsr.flags with
      negative := result.msb
      zero := result == 0
      carry := false }
  else written

theorem yields_updated (operation : LongMultiply) :
    CpuM.Yields c operation.execute fun _ flow d => flow = .next ∧ d = operation.updated c := by
  unfold execute updated
  apply CpuM.yields_get_bind
  apply CpuM.yields_charge_bind
  apply CpuM.yields_silent_bind (CpuM.yields_writeRegister _ _)
  intro _
  -- the high word is written last
  apply CpuM.yields_silent_bind (CpuM.yields_writeRegister _ _)
  intro _
  by_cases hs : operation.setFlags = true
  · rw [if_pos hs, if_pos hs]
    exact ⟨rfl, rfl⟩
  · rw [if_neg hs, if_neg hs]
    exact ⟨rfl, rfl⟩

variable (hhigh : operation.destinationHigh ≠ .pc) (hlow : operation.destinationLow ≠ .pc)

include hhigh hlow

theorem pair_updated (hne : operation.destinationHigh ≠ operation.destinationLow) :
    operation.pair (operation.updated c) = operation.result c := by
  let written := (c.write operation.destinationLow ((operation.result c).extractLsb' 0 32)).write
    operation.destinationHigh ((operation.result c).extractLsb' 32 32)
  have hreadHigh : written.read operation.destinationHigh =
      (operation.result c).extractLsb' 32 32 := by
    rw [Cpu.read_write _ _ hhigh, if_pos rfl]
  -- the low word is written first, and stays because the high word goes elsewhere
  have hreadLow : written.read operation.destinationLow =
      (operation.result c).extractLsb' 0 32 := by
    rw [Cpu.read_write _ _ hhigh, if_neg hne.symm, Cpu.read_write _ _ hlow, if_pos rfl]
  have hpair : operation.pair written = operation.result c := by
    unfold pair
    rw [hreadHigh, hreadLow, append_halves]
  unfold updated
  dsimp only
  split_ifs
  · unfold pair
    rw [Cpu.read_withFlags, Cpu.read_withFlags]
    exact hpair
  · exact hpair

theorem pc_updated : (operation.updated c).pc = c.pc := by
  have hpc : ((c.write operation.destinationLow ((operation.result c).extractLsb' 0 32)).write
      operation.destinationHigh ((operation.result c).extractLsb' 32 32)).pc = c.pc := by
    rw [Cpu.pc_write _ _ hhigh, Cpu.pc_write _ _ hlow]
  unfold updated
  dsimp only
  split_ifs
  · exact hpc
  · exact hpc

theorem changedTo_updated :
    c.ChangedTo (c.cpsr.afterProduct operation.setFlags (operation.result c))
      (fun register => register = operation.destinationHigh ∨ register = operation.destinationLow)
      (operation.updated c) := by
  have hagrees : c.AgreesBut c.mode
      (fun register => register = operation.destinationHigh ∨ register = operation.destinationLow)
      ((c.write operation.destinationLow ((operation.result c).extractLsb' 0 32)).write
        operation.destinationHigh ((operation.result c).extractLsb' 32 32)) := by
    -- each of the two writes stays within the two destinations
    apply Cpu.AgreesBut.write _ (.inl rfl) hhigh
    exact Cpu.AgreesBut.write (.refl c) (.inr rfl) hlow _
  unfold updated
  by_cases hs : operation.setFlags = true
  · rw [if_pos hs, hs]
    exact hagrees.withProduct _
  · rw [if_neg hs, Bool.eq_false_iff.2 hs]
    exact hagrees.changedTo

end LongMultiply

/-! ### The opcodes -/

/-- **Multiplications are exact under any sharing of registers.**  An opcode of either set that says
a multiplication to another destination than the program counter gives its destination the exact
result modulo `2 ^ 32`, and a long one with two destinations gives the pair of them the exact result
modulo `2 ^ 64`; the operands and what is accumulated are the values from before.  With S the flags
tell of the result that is kept, and no other register but the program counter changes.  The product
itself never needs more than 64 bits. -/
theorem multiplication_exact {σ : Type} (bus : Bus σ) (state : σ) (c : Cpu) :
    (∀ (opcode : Opcode) (operation : Multiply), opcode.holds c.cpsr.flags = true →
      opcode.armForm? = some (.multiply operation) → operation.destination ≠ .pc →
      let run := opcode.execute.runOn bus c state
      let d := run.value.2
      run.value.1 = .ok () ∧
        (d.read operation.destination).toNat = operation.exact c % 2 ^ 32 ∧
        c.ChangedTo
          (c.cpsr.afterProduct operation.setFlags (d.read operation.destination))
          (· = operation.destination) d ∧
        d.pc = c.pc + opcode.instructionSet.size) ∧
    (∀ (opcode : Opcode) (operation : LongMultiply), opcode.holds c.cpsr.flags = true →
      opcode.armForm? = some (.multiplyLong operation) → operation.destinationHigh ≠ .pc →
      operation.destinationLow ≠ .pc → operation.destinationHigh ≠ operation.destinationLow →
      let run := opcode.execute.runOn bus c state
      let d := run.value.2
      run.value.1 = .ok () ∧ ((operation.pair d).toNat : Int) = operation.exact c % 2 ^ 64 ∧
        c.ChangedTo (c.cpsr.afterProduct operation.setFlags (operation.pair d))
          (fun register => register = operation.destinationHigh ∨
            register = operation.destinationLow) d ∧
        d.pc = c.pc + opcode.instructionSet.size) ∧
    ∀ a b : Word, (Multiplier.product a b false).toNat = a.toNat * b.toNat ∧
      (Multiplier.product a b true).toInt = a.toInt * b.toInt := by
  refine ⟨?_, ?_, ?_⟩
  · intro opcode operation hc hf hpc
    dsimp only
    have hyields := Opcode.yields_execute_of_lift hf hc rfl rfl operation.yields_updated
    obtain ⟨hok, hd⟩ := BusProgram.Yields.run hyields bus state
    -- the destination is not the program counter, which alone moves on
    have hread : ((operation.updated c).advanced opcode.instructionSet).read
        operation.destination = operation.result c := by
      rw [Cpu.read_advanced _ _ hpc, Multiply.read_updated hpc]
    rw [← StepM.runOn] at hok hd
    rw [hd, hread]
    refine ⟨hok, operation.toNat_result c, (Multiply.changedTo_updated hpc).advanced _, ?_⟩
    exact congrArg (· + opcode.instructionSet.size) (Multiply.pc_updated hpc)
  · intro opcode operation hc hf hhigh hlow hne
    dsimp only
    have hyields := Opcode.yields_execute_of_lift hf hc rfl rfl operation.yields_updated
    obtain ⟨hok, hd⟩ := BusProgram.Yields.run hyields bus state
    -- the two halves together are the product, since they go to different registers
    have hpair : operation.pair ((operation.updated c).advanced opcode.instructionSet) =
        operation.result c := by
      unfold LongMultiply.pair
      rw [Cpu.read_advanced _ _ hhigh, Cpu.read_advanced _ _ hlow]
      exact LongMultiply.pair_updated hhigh hlow hne
    rw [← StepM.runOn] at hok hd
    rw [hd, hpair]
    refine ⟨hok, operation.toNat_result c, (LongMultiply.changedTo_updated hhigh hlow).advanced _,
      ?_⟩
    exact congrArg (· + opcode.instructionSet.size) (LongMultiply.pc_updated hhigh hlow)
  · intro a b
    exact ⟨Multiplier.toNat_product a b, Multiplier.toInt_product a b⟩

/-- With all operands and destinations in two registers that hold -1, accumulating the square of -1
gives zero, in one word and, as a signed product with S, in two. -/
theorem multiplication_exact_shared :
    let start := (Cpu.reset.write (.ofField 0#4) (-1)).write (.ofField 1#4) (-1)
    let run (opcode : Word) :=
      (Opcode.arm opcode).execute.runOn Memory.bus start { regions := [] }
    let short := run 0xE0200090
    let long := run 0xE0F10190
    (short.value.1 = .ok () ∧ (short.value.2.read (.ofField 0#4)).toNat = 0 ∧
      short.value.2.cpsr = start.cpsr) ∧
    long.value.1 = .ok () ∧
      (long.value.2.read (.ofField 1#4) ++ long.value.2.read (.ofField 0#4)).toNat = 0 ∧
      long.value.2.cpsr.flags = ⟨false, true, false, start.cpsr.flags.overflow⟩ := by
  intro start run short long
  obtain ⟨hshort, hlong, -⟩ := multiplication_exact Memory.bus { regions := [] } start
  obtain ⟨hok, hvalue, hchanged, -⟩ := hshort (.arm 0xE0200090)
    (ArmInstruction.ofMultiply 0xE0200090) (by decide) rfl (by decide)
  obtain ⟨hok', hvalue', hchanged', -⟩ := hlong (.arm 0xE0F10190)
    (ArmInstruction.ofMultiplyLong 0xE0F10190) (by decide) rfl (by decide) (by decide) (by decide)
  -- minus one times itself, and minus one: nothing is left, in one word and in two
  have hzero : (ArmInstruction.ofMultiply 0xE0200090).exact start % 2 ^ 32 = 0 := by
    decide
  have hzero' : (ArmInstruction.ofMultiplyLong 0xE0F10190).exact start % 2 ^ 64 = 0 := by
    decide
  have hpair : (ArmInstruction.ofMultiplyLong 0xE0F10190).pair long.value.2 = 0 :=
    BitVec.eq_of_toNat_eq (Int.natCast_eq_zero.1 (hvalue'.trans hzero'))
  refine ⟨⟨hok, hvalue.trans hzero, hchanged.cpsr⟩, hok', congrArg BitVec.toNat hpair, ?_⟩
  rw [hchanged'.cpsr, hpair]
  decide

end Armv4t

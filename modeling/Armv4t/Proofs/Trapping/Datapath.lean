import Armv4t.Arm.Instruction
import Armv4t.Thumb.Instruction
import Armv4t.Proofs.Trapping.Arithmetic

/-!
# The datapath on checked arithmetic

Register fields, the codes of operations, the barrel shifter, the arithmetic unit and the multiplier
as a host computes them from whole words.  No amount of a shift, no product and no register number
is out of range, whatever the operands: each computation has the value that the datapath has.
-/

namespace Armv4t.Trapping

/-! ### Fields of an opcode -/

/-- Widening a field by way of a halfword is widening it. -/
theorem setWidth_setWidth_halfword {n : Nat} (field : BitVec n) (h : n ≤ 16) :
    (field.setWidth 16).setWidth 32 = field.setWidth 32 := by
  refine BitVec.eq_of_getLsbD_eq fun i hi => ?_
  simp only [BitVec.getLsbD_setWidth]
  by_cases hw : i < 16
  · simp [hi, hw]
  · simp [hw, BitVec.getLsbD_of_ge field i (by omega)]

/-- A mask of ones leaves the low bits. -/
theorem and_ones {w : Nat} (value : BitVec w) (count : Nat) :
    value &&& BitVec.ofNat w (2 ^ count - 1) = (value.extractLsb' 0 count).setWidth w := by
  refine BitVec.eq_of_getLsbD_eq fun i hi => ?_
  rw [BitVec.getLsbD_and, BitVec.getLsbD_ofNat, Nat.testBit_two_pow_sub_one,
    BitVec.getLsbD_setWidth, BitVec.getLsbD_extractLsb', Nat.zero_add, decide_eq_true hi,
    Bool.true_and, Bool.true_and, Bool.and_comm]

/-- The register of a number, of which the low four bits count. -/
def registerOf (number : Word) : Checked Register :=
  lookup (.ofFn Register.ofIndex) (number &&& 0xF).toNat

/-- The register named by the bits of an opcode from an offset on, as far as a mask reaches. -/
def registerField {w : Nat} (opcode mask : BitVec w) (offset : Nat) : Checked Register := do
  let field ← shr opcode offset
  registerOf ((field &&& mask).setWidth 32)

/-- The register named by four bits of an ARM opcode. -/
def armRegister (opcode : Word) (offset : Nat) : Checked Register :=
  registerField opcode 0b1111 offset

/-- The register named by three bits of a Thumb opcode. -/
def thumbRegister (opcode : Halfword) (offset : Nat) : Checked Register :=
  registerField opcode 0b111 offset

theorem registerOf_eq_ok (number : Word) :
    registerOf number = .ok (.ofField (number.extractLsb' 0 4)) := by
  have hmask : number &&& 0xF = (number.extractLsb' 0 4).setWidth 32 := and_ones number 4
  have hnumber : (number &&& 0xF).toNat = (number.extractLsb' 0 4).toNat := by
    rw [hmask, BitVec.toNat_setWidth_of_le (by decide)]
  have hlt : (number &&& 0xF).toNat < 16 := by
    rw [hnumber]
    exact BitVec.isLt _
  unfold registerOf
  rw [lookup_of_lt hlt, Vector.getElem_ofFn]
  exact congrArg (fun index => Except.ok (Register.ofIndex index)) (Fin.ext hnumber)

@[simp] theorem armRegister_of_lt {opcode : Word} {offset : Nat} (h : offset < 32) :
    armRegister opcode offset = .ok (ArmInstruction.registerAt opcode offset) := by
  have hmask : (opcode >>> offset) &&& 0b1111 = ((opcode >>> offset).extractLsb' 0 4).setWidth 32 :=
    and_ones (opcode >>> offset) 4
  have hfield : (((opcode >>> offset) &&& 0b1111).setWidth 32).extractLsb' 0 4 =
      opcode.extractLsb' offset 4 := by
    rw [hmask]
    refine BitVec.eq_of_getLsbD_eq fun i hi => ?_
    simp [hi]
    omega
  simp only [armRegister, registerField, shr_of_lt h, ok_bind, registerOf_eq_ok,
    ArmInstruction.registerAt, hfield]

@[simp] theorem thumbRegister_of_lt {opcode : Halfword} {offset : Nat} (h : offset < 16) :
    thumbRegister opcode offset = .ok (.low (ThumbInstruction.lowAt opcode offset)) := by
  have hmask : (opcode >>> offset) &&& 0b111 = ((opcode >>> offset).extractLsb' 0 3).setWidth 16 :=
    and_ones (opcode >>> offset) 3
  have hfield : (((opcode >>> offset) &&& 0b111).setWidth 32).extractLsb' 0 4 =
      (opcode.extractLsb' offset 3).setWidth 4 := by
    rw [hmask]
    refine BitVec.eq_of_getLsbD_eq fun i hi => ?_
    simp [hi]
    omega
  have hlow : ∀ field : BitVec 3, Register.ofField (field.setWidth 4) = .low field.toFin := by
    decide
  simp only [thumbRegister, registerField, shr_of_lt h, ok_bind, registerOf_eq_ok, hfield, hlow,
    ThumbInstruction.lowAt]

/-! ### Codes of operations -/

/-- The kind of shift of a code, of which the low two bits count. -/
def shiftKindOf (bits : Word) : ShiftKind :=
  match (bits &&& 0b11).toNat with
  | 0 => .lsl
  | 1 => .lsr
  | 2 => .asr
  | _ => .ror

/-- The operation of a code, of which the low four bits count. -/
def aluOperationOf (bits : Word) : AluOperation :=
  match (bits &&& 0b1111).toNat with
  | 0x0 => .and
  | 0x1 => .eor
  | 0x2 => .sub
  | 0x3 => .rsb
  | 0x4 => .add
  | 0x5 => .adc
  | 0x6 => .sbc
  | 0x7 => .rsc
  | 0x8 => .tst
  | 0x9 => .teq
  | 0xA => .cmp
  | 0xB => .cmn
  | 0xC => .orr
  | 0xD => .mov
  | 0xE => .bic
  | _ => .mvn

/-- The condition of a code, of which the low four bits count. -/
def conditionOf (bits : Word) : Condition :=
  match (bits &&& 0b1111).toNat with
  | 0 => .equal
  | 1 => .notEqual
  | 2 => .unsignedHigherOrSame
  | 3 => .unsignedLower
  | 4 => .negative
  | 5 => .positiveOrZero
  | 6 => .overflow
  | 7 => .noOverflow
  | 8 => .unsignedHigher
  | 9 => .unsignedLowerOrSame
  | 10 => .signedGreaterOrEqual
  | 11 => .signedLess
  | 12 => .signedGreater
  | 13 => .signedLessOrEqual
  | 14 => .always
  | _ => .never

@[simp] theorem shiftKindOf_field : ∀ field : BitVec 2,
    shiftKindOf (field.setWidth 32) = .ofField field := by
  decide

@[simp] theorem aluOperationOf_field : ∀ field : BitVec 4,
    aluOperationOf (field.setWidth 32) = .ofField field := by
  decide

@[simp] theorem conditionOf_field : ∀ field : BitVec 4,
    conditionOf (field.setWidth 32) = .ofField field := by
  decide

/-! ### The barrel shifter -/

/-- Thirty-two copies of the top bit. -/
def signFill (value : Word) : Checked Word := do
  return if ← getBit value 31 then BitVec.allOnes 32 else 0

/-- A shift by an immediate, of which the low five bits count. -/
def shiftByImmediate (kind : ShiftKind) (value amount : Word) (carry : Bool) :
    Checked Shifted := do
  let amount := (amount &&& 0b11111).toNat
  match kind with
  | .lsl =>
    if amount = 0 then return ⟨value, none⟩
    return ⟨← shl value amount, some (← getBit value (← subIndex 32 amount))⟩
  | .lsr =>
    if amount = 0 then return ⟨0, some (← getBit value 31)⟩
    return ⟨← shr value amount, some (← getBit value (← subIndex amount 1))⟩
  | .asr =>
    if amount = 0 then return ⟨← signFill value, some (← getBit value 31)⟩
    return ⟨← sar value amount, some (← getBit value (← subIndex amount 1))⟩
  | .ror =>
    if amount = 0 then
      return ⟨← setBit (← shr value 1) 31 carry, some (← getBit value 0)⟩
    return ⟨value.rotateRight amount, some (← getBit value (← subIndex amount 1))⟩

/-- A shift by the low byte of a register. -/
def shiftByRegister (kind : ShiftKind) (value amount : Word) : Checked Shifted := do
  let amount := (amount &&& 0xFF).toNat
  if amount = 0 then return ⟨value, none⟩
  match kind with
  | .lsl =>
    if amount < 32 then
      return ⟨← shl value amount, some (← getBit value (← subIndex 32 amount))⟩
    else if amount = 32 then return ⟨0, some (← getBit value 0)⟩
    else return ⟨0, some false⟩
  | .lsr =>
    if amount < 32 then
      return ⟨← shr value amount, some (← getBit value (← subIndex amount 1))⟩
    else if amount = 32 then return ⟨0, some (← getBit value 31)⟩
    else return ⟨0, some false⟩
  | .asr =>
    if amount < 32 then
      return ⟨← sar value amount, some (← getBit value (← subIndex amount 1))⟩
    else return ⟨← signFill value, some (← getBit value 31)⟩
  | .ror =>
    if amount % 32 = 0 then return ⟨value, some (← getBit value 31)⟩
    else
      return ⟨value.rotateRight (amount % 32), some (← getBit value (← subIndex (amount % 32) 1))⟩

/-- The low byte of a word rotated right by twice the low four bits of another. -/
def rotateImmediate (immediate rotate : Word) : Checked Shifted := do
  let amount ← mul (rotate &&& 0b1111) 2
  let value := (immediate &&& 0xFF).rotateRight amount.toNat
  if amount = 0 then return ⟨value, none⟩
  return ⟨value, some (← getBit value 31)⟩

/-- The top bit is bit 31. -/
@[simp] theorem getElem_top (value : Word) : value[31] = value.msb :=
  (BitVec.msb_eq_getLsbD_last value).symm

@[simp] theorem getBit_top (value : Word) : getBit value 31 = .ok value.msb := by
  simp

@[simp] theorem signFill_eq_ok (value : Word) :
    signFill value = .ok (ShiftKind.signFill value) := by
  simp only [signFill, getBit_top, ok_bind, pure_eq_ok, ShiftKind.signFill]
  rfl

/-- Bit 31 over the rest of a value moved down by one. -/
theorem withBit_ushiftRight (value : Word) (carry : Bool) :
    withBit (value >>> 1) 31 carry =
      (BitVec.ofBool carry ++ value.extractLsb' 1 31 : BitVec (1 + 31)) := by
  refine BitVec.eq_of_getLsbD_eq fun i hi => ?_
  rw [getLsbD_withBit carry (by decide), BitVec.getLsbD_append]
  by_cases htop : i = 31
  · subst htop
    simp
  · have hlow : i < 31 := by omega
    simp [htop, hlow]

@[simp] theorem shiftByImmediate_field (kind : ShiftKind) (value : Word) (amount : BitVec 5)
    (carry : Bool) :
    shiftByImmediate kind value (amount.setWidth 32) carry =
      .ok (kind.byImmediate value amount carry) := by
  -- an amount of five bits passes the mask as it is
  have hmask : ∀ field : BitVec 5, (field.setWidth 32 &&& 0b11111).toNat = field.toNat := by
    decide
  have hlt := amount.isLt
  unfold shiftByImmediate ShiftKind.byImmediate
  rw [hmask]
  generalize amount.toNat = n at hlt
  by_cases hn : n = 0
  · cases kind <;> simp [hn, withBit_ushiftRight]
  · -- a positive amount moves the bit `32 - n` or `n - 1` out, which both exist
    have hn32 : n < 32 := hlt
    have hsub : 32 - n < 32 := by omega
    have hpred : n - 1 < 32 := by omega
    have hle : n ≤ 32 := by omega
    have hpos : 1 ≤ n := by omega
    cases kind <;> simp [hn, hn32, hsub, hpred, hle, hpos]

@[simp] theorem shiftByRegister_eq_ok (kind : ShiftKind) (value amount : Word) :
    shiftByRegister kind value amount = .ok (kind.byRegister value amount) := by
  -- the amount is the low byte, whatever the rest of the word
  have hmask : amount &&& 0xFF = (amount.extractLsb' 0 8).setWidth 32 := and_ones amount 8
  have hamount : (amount &&& 0xFF).toNat = (amount.extractLsb' 0 8).toNat := by
    rw [hmask, BitVec.toNat_setWidth_of_le (by decide)]
  unfold shiftByRegister ShiftKind.byRegister
  rw [hamount]
  generalize (amount.extractLsb' 0 8).toNat = n
  by_cases hn : n = 0
  · simp [hn]
  have hpos : 1 ≤ n := by omega
  -- below thirty-two a bit is moved out, which the checks let pass; beyond it none is looked at
  cases kind with
  | lsl =>
    by_cases h32 : n < 32
    · have hsub : 32 - n < 32 := by omega
      simp [hn, h32, hsub, Nat.le_of_lt h32]
    · by_cases heq : n = 32 <;> simp [hn, h32, heq]
  | lsr =>
    by_cases h32 : n < 32
    · have hpred : n - 1 < 32 := by omega
      simp [hn, h32, hpred, hpos]
    · by_cases heq : n = 32 <;> simp [hn, h32, heq]
  | asr =>
    by_cases h32 : n < 32
    · have hpred : n - 1 < 32 := by omega
      simp [hn, h32, hpred, hpos]
    · simp [hn, h32]
  | ror =>
    by_cases hzero : n % 32 = 0
    · simp [hn, hzero]
    · have hpred : n % 32 - 1 < 32 := by omega
      have hpos : 1 ≤ n % 32 := by omega
      simp [hn, hzero, hpred, hpos]

@[simp] theorem rotateImmediate_field (immediate : BitVec 8) (rotate : BitVec 4) :
    rotateImmediate (immediate.setWidth 32) (rotate.setWidth 32) =
      .ok (rotatedImmediate immediate rotate) := by
  -- masking a byte leaves it
  have hbyte : (immediate.setWidth 32 : Word) &&& 0xFF = immediate.setWidth 32 := by
    have hmask : (immediate.setWidth 32 : Word) &&& 0xFF =
        ((immediate.setWidth 32 : Word).extractLsb' 0 8).setWidth 32 := and_ones _ 8
    rw [hmask]
    refine BitVec.eq_of_getLsbD_eq fun i hi => ?_
    simp only [BitVec.getLsbD_setWidth, BitVec.getLsbD_extractLsb', Nat.zero_add, hi,
      decide_true, Bool.true_and]
    by_cases hb : i < 8
    · simp [hb]
    · simp [hb, BitVec.getLsbD_of_ge immediate i (by omega)]
  -- twice a field of four bits fits a word, for all sixteen
  have hmul : ∀ field : BitVec 4, mul (field.setWidth 32 &&& 0b1111) 2 =
      .ok (BitVec.ofNat 32 (2 * field.toNat)) := by
    decide
  have hzero : ∀ field : BitVec 4, BitVec.ofNat 32 (2 * field.toNat) = 0 ↔ field = 0 := by
    decide
  have hnat : ∀ field : BitVec 4, (BitVec.ofNat 32 (2 * field.toNat)).toNat = 2 * field.toNat := by
    decide
  simp only [rotateImmediate, hmul, ok_bind, pure_eq_ok, hbyte, hzero, hnat, rotatedImmediate,
    getBit_top]
  split <;> rfl

/-! ### The arithmetic unit -/

/-- `a + b` plus the carry. -/
def addWithCarry (a b : Word) (carry : Bool) : Checked AluResult := do
  let value := a + b + (BitVec.ofBool carry).setWidth 32
  let overflow ← getBit ((a ^^^ value) &&& (b ^^^ value)) 31
  return {
    value := value
    carry := some (if carry then value.ule a else value.ult a)
    overflow := some overflow }

/-- `a - b` less one if the carry is clear. -/
def subtractWithCarry (a b : Word) (carry : Bool) : Checked AluResult := do
  let value := a - b - (BitVec.ofBool !carry).setWidth 32
  let overflow ← getBit ((a ^^^ b) &&& (a ^^^ value)) 31
  return {
    value := value
    carry := some (if carry then b.ule a else b.ult a)
    overflow := some overflow }

/-- The result of an operation on a first operand and a shifter output. -/
def evaluate (operation : AluOperation) (first : Word) (second : Shifted) (carry : Bool) :
    Checked AluResult :=
  let logical (value : Word) : Checked AluResult := return ⟨value, second.carry, none⟩
  match operation with
  | .and | .tst => logical (first &&& second.value)
  | .eor | .teq => logical (first ^^^ second.value)
  | .orr => logical (first ||| second.value)
  | .mov => logical second.value
  | .bic => logical (first &&& ~~~second.value)
  | .mvn => logical (~~~second.value)
  | .sub | .cmp => subtractWithCarry first second.value true
  | .rsb => subtractWithCarry second.value first true
  | .add | .cmn => addWithCarry first second.value false
  | .adc => addWithCarry first second.value carry
  | .sbc => subtractWithCarry first second.value carry
  | .rsc => subtractWithCarry second.value first carry

@[simp] theorem addWithCarry_eq_ok (a b : Word) (carry : Bool) :
    addWithCarry a b carry = .ok (Armv4t.addWithCarry a b carry) := by
  simp only [addWithCarry, getBit_top, ok_bind, pure_eq_ok, Armv4t.addWithCarry]

@[simp] theorem subtractWithCarry_eq_ok (a b : Word) (carry : Bool) :
    subtractWithCarry a b carry = .ok (Armv4t.subtractWithCarry a b carry) := by
  simp only [subtractWithCarry, getBit_top, ok_bind, pure_eq_ok, Armv4t.subtractWithCarry]

@[simp] theorem evaluate_eq_ok (operation : AluOperation) (first : Word) (second : Shifted)
    (carry : Bool) :
    evaluate operation first second carry = .ok (operation.evaluate first second carry) := by
  cases operation <;> simp [evaluate, AluOperation.evaluate]

/-! ### The multiplier -/

/-- Whether the bits of the multiplier under a mask are all zero, or all one if it is signed. -/
def terminates (multiplier mask : Word) (signed : Bool) : Bool :=
  multiplier &&& mask == 0 || (signed && multiplier &&& mask == mask)

/-- The internal cycles of a multiplication. -/
def multiplierCycles (multiplier : Word) (signed : Bool) : Word :=
  if terminates multiplier 0xFFFFFF00 signed then 1
  else if terminates multiplier 0xFFFF0000 signed then 2
  else if terminates multiplier 0xFF000000 signed then 3
  else 4

/-- The 64-bit product of two words. -/
def product (a b : Word) (signed : Bool) : Checked (BitVec 64) :=
  if signed then mulSigned (a.signExtend 64) (b.signExtend 64)
  else mul (a.setWidth 64) (b.setWidth 64)

/-- Two words as one of 64 bits. -/
def pair (high low : Word) : Checked (BitVec 64) := do
  return (← shl (high.setWidth 64) 32) ||| low.setWidth 64

theorem toNat_multiplierCycles (multiplier : Word) (signed : Bool) :
    (multiplierCycles multiplier signed).toNat = Multiplier.cycles multiplier signed := by
  have hexhausted (start : Nat) (mask : Word) (h : mask = -1 <<< start) :
      terminates multiplier mask signed = Multiplier.isExhausted multiplier signed start := by
    rw [h]
    rfl
  unfold multiplierCycles Multiplier.cycles
  rw [hexhausted 8 _ (by decide), hexhausted 16 _ (by decide), hexhausted 24 _ (by decide)]
  split_ifs <;> rfl

/-- A multiplication takes at most four cycles. -/
theorem cycles_le (multiplier : Word) (signed : Bool) :
    Multiplier.cycles multiplier signed ≤ 4 := by
  unfold Multiplier.cycles
  split_ifs <;> decide

/-- The product of two words fits in 64 bits, unsigned and signed. -/
@[simp] theorem product_eq_ok (a b : Word) (signed : Bool) :
    product a b signed = .ok (Multiplier.product a b signed) := by
  cases signed with
  | false =>
    have hprod : (a.setWidth 64).toNat * (b.setWidth 64).toNat < 2 ^ 64 := by
      rw [BitVec.toNat_setWidth_of_le (by decide), BitVec.toNat_setWidth_of_le (by decide)]
      calc a.toNat * b.toNat < 2 ^ 32 * 2 ^ 32 := Nat.mul_lt_mul'' a.isLt b.isLt
        _ = 2 ^ 64 := by decide
    exact mul_eq_ok hprod
  | true =>
    have ha : (a.signExtend 64).toInt = a.toInt := BitVec.toInt_signExtend_of_le (by decide)
    have hb : (b.signExtend 64).toInt = b.toInt := BitVec.toInt_signExtend_of_le (by decide)
    -- the product of two signed words has a magnitude of at most 2 ^ 62
    have hupper : a.toInt * b.toInt ≤ 2 ^ (32 * 2 - 2) := BitVec.toInt_mul_toInt_le
    have hlower : -2 ^ (32 * 2 - 2) ≤ a.toInt * b.toInt := BitVec.le_toInt_mul_toInt
    refine mulSigned_eq_ok ?_ ?_
    · rw [ha, hb]
      exact Int.lt_of_le_of_lt hupper (by decide)
    · rw [ha, hb]
      exact Int.le_trans (by decide) hlower

@[simp] theorem pair_eq_ok (high low : Word) : pair high low = .ok (high ++ low) := by
  have hshift : (32 : Nat) < 64 := by decide
  simp only [pair, shl_of_lt hshift, ok_bind, pure_eq_ok]
  refine congrArg Except.ok (BitVec.eq_of_getLsbD_eq fun i hi => ?_)
  rw [BitVec.getLsbD_or, BitVec.getLsbD_shiftLeft, BitVec.getLsbD_setWidth, BitVec.getLsbD_setWidth,
    BitVec.getLsbD_append]
  by_cases hlow : i < 32
  · simp [hlow]
    omega
  · have hhigh : i - 32 < 64 := by omega
    simp [hlow, hi, hhigh, BitVec.getLsbD_of_ge low i (by omega)]

end Armv4t.Trapping

import Armv4t.Psr
import Armv4t.Shift

/-!
# The arithmetic and logic unit

Sixteen operations on two words.  A result carries the value and, where the operation determines
them, the new carry and overflow flags; `Flags.after` is the effect on the flags.  The carry of an
addition tells whether the sum of its operands as natural numbers fits in a word
(`carry_addWithCarry`), its overflow whether the sum as integers does (`overflow_addWithCarry`), and
subtracting is adding the complement (`subtractWithCarry_eq`).
-/

namespace Armv4t

/-- The sixteen data-processing operations. -/
inductive AluOperation where
  | and
  | eor
  | sub
  | rsb
  | add
  | adc
  | sbc
  | rsc
  | tst
  | teq
  | cmp
  | cmn
  | orr
  | mov
  | bic
  | mvn
deriving DecidableEq, Repr

/-- The result of an operation.  A flag that is `none` is left as it was. -/
@[ext] structure AluResult where
  value : Word
  carry : Option Bool
  overflow : Option Bool
deriving DecidableEq, Repr

/-- `a + b` plus the carry.  The result carries when it is smaller than an operand, or as small as
one with a carry added, and overflows when both operands have the sign that it has not. -/
def addWithCarry (a b : Word) (carry : Bool) : AluResult :=
  let value := a + b + (BitVec.ofBool carry).setWidth 32
  { value := value
    carry := some (if carry then value.ule a else value.ult a)
    overflow := some ((a ^^^ value) &&& (b ^^^ value)).msb }

/-- `a - b` less one if the carry is clear.  The carry is set when nothing is borrowed, and the
result overflows when the operands differ in sign and it has not the sign of the first. -/
def subtractWithCarry (a b : Word) (carry : Bool) : AluResult :=
  let value := a - b - (BitVec.ofBool !carry).setWidth 32
  { value := value
    carry := some (if carry then b.ule a else b.ult a)
    overflow := some ((a ^^^ b) &&& (a ^^^ value)).msb }

@[simp] theorem value_addWithCarry_false (a b : Word) : (addWithCarry a b false).value = a + b := by
  simp [addWithCarry]

@[simp] theorem value_subtractWithCarry_true (a b : Word) :
    (subtractWithCarry a b true).value = a - b := by
  simp [subtractWithCarry]

theorem toNat_value_addWithCarry (a b : Word) (carry : Bool) :
    (addWithCarry a b carry).value.toNat = (a.toNat + b.toNat + carry.toNat) % 0x100000000 := by
  cases carry <;> simp [addWithCarry, BitVec.toNat_add]

/-- An addition carries when the sum of its operands as natural numbers is no word. -/
theorem carry_addWithCarry (a b : Word) (carry : Bool) :
    (addWithCarry a b carry).carry =
      some (decide (0x100000000 ≤ a.toNat + b.toNat + carry.toNat)) := by
  have ha := a.isLt
  have hb := b.isLt
  cases carry <;> simp [addWithCarry, BitVec.ule, BitVec.ult, BitVec.toNat_add] <;> omega

/-- An addition overflows when its value is not the sum of its operands as integers. -/
theorem overflow_addWithCarry (a b : Word) (carry : Bool) :
    (addWithCarry a b carry).overflow =
      some (decide ((addWithCarry a b carry).value.toInt ≠ a.toInt + b.toInt + carry.toNat)) := by
  have hv := toNat_value_addWithCarry a b carry
  have hc := carry.toNat_le
  change some (BitVec.msb ((a ^^^ (addWithCarry a b carry).value) &&&
    (b ^^^ (addWithCarry a b carry).value))) = _
  generalize (addWithCarry a b carry).value = v at hv ⊢
  have ha := a.isLt
  have hb := b.isLt
  have hvl := v.isLt
  rw [Option.some.injEq, Bool.eq_iff_iff, BitVec.msb_and, BitVec.msb_xor, BitVec.msb_xor]
  simp only [BitVec.msb_eq_decide, BitVec.toInt_eq_toNat_cond, decide_eq_true_eq,
    Bool.and_eq_true, bne_iff_ne, ne_eq, decide_eq_decide]
  omega

theorem value_subtractWithCarry (a b : Word) (carry : Bool) :
    (subtractWithCarry a b carry).value = (addWithCarry a (~~~b) carry).value := by
  cases carry <;> simp [subtractWithCarry, addWithCarry] <;> bv_omega

/-- Subtracting is adding the complement. -/
theorem subtractWithCarry_eq (a b : Word) (carry : Bool) :
    subtractWithCarry a b carry = addWithCarry a (~~~b) carry := by
  have hv := value_subtractWithCarry a b carry
  have ha := a.isLt
  have hb := b.isLt
  have hc : (subtractWithCarry a b carry).carry = (addWithCarry a (~~~b) carry).carry := by
    rw [carry_addWithCarry]
    cases carry <;> simp [subtractWithCarry, BitVec.ule, BitVec.ult] <;> omega
  have ho : (subtractWithCarry a b carry).overflow = (addWithCarry a (~~~b) carry).overflow := by
    change some (BitVec.msb ((a ^^^ b) &&& (a ^^^ (subtractWithCarry a b carry).value))) =
      some (BitVec.msb ((a ^^^ (addWithCarry a (~~~b) carry).value) &&&
        (~~~b ^^^ (addWithCarry a (~~~b) carry).value)))
    rw [hv]
    generalize (addWithCarry a (~~~b) carry).value = v
    simp only [BitVec.msb_and, BitVec.msb_xor, BitVec.msb_not]
    cases a.msb <;> cases b.msb <;> cases v.msb <;> rfl
  exact AluResult.ext hv hc ho

namespace AluOperation

/-- All operations in the order of their codes. -/
def all : List AluOperation :=
  [and, eor, sub, rsb, add, adc, sbc, rsc, tst, teq, cmp, cmn, orr, mov, bic, mvn]

/-- The operation of a given code. -/
def ofField (code : BitVec 4) : AluOperation :=
  all.get code.toFin

/-- The mnemonic of the operation. -/
def text : AluOperation → String
  | and => "and"
  | eor => "eor"
  | sub => "sub"
  | rsb => "rsb"
  | add => "add"
  | adc => "adc"
  | sbc => "sbc"
  | rsc => "rsc"
  | tst => "tst"
  | teq => "teq"
  | cmp => "cmp"
  | cmn => "cmn"
  | orr => "orr"
  | mov => "mov"
  | bic => "bic"
  | mvn => "mvn"

/-- The operations that only set flags. -/
def isTest : AluOperation → Bool
  | tst | teq | cmp | cmn => true
  | _ => false

/-- The operations that ignore their first operand. -/
def isMove : AluOperation → Bool
  | mov | mvn => true
  | _ => false

/-- The result of an operation on a first operand and a shifter output.  The logical operations take
their carry from the shifter; the carry flag enters the operations with carry. -/
def evaluate (operation : AluOperation) (first : Word) (second : Shifted) (carry : Bool) :
    AluResult :=
  let logical (value : Word) : AluResult := ⟨value, second.carry, none⟩
  match operation with
  | and | tst => logical (first &&& second.value)
  | eor | teq => logical (first ^^^ second.value)
  | orr => logical (first ||| second.value)
  | mov => logical second.value
  | bic => logical (first &&& ~~~second.value)
  | mvn => logical (~~~second.value)
  | sub | cmp => subtractWithCarry first second.value true
  | rsb => subtractWithCarry second.value first true
  | add | cmn => addWithCarry first second.value false
  | adc => addWithCarry first second.value carry
  | sbc => subtractWithCarry first second.value carry
  | rsc => subtractWithCarry second.value first carry

end AluOperation

/-- The result that moves a shifted value. -/
def Shifted.result (shifted : Shifted) : AluResult :=
  ⟨shifted.value, shifted.carry, none⟩

/-- The flags after a result: sign and zero from the value, carry and overflow where it has them. -/
def Flags.after (flags : Flags) (result : AluResult) : Flags where
  negative := result.value.msb
  zero := result.value == 0
  carry := result.carry.getD flags.carry
  overflow := result.overflow.getD flags.overflow

end Armv4t

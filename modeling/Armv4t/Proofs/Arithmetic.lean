import Armv4t.Alu
import Mathlib.Tactic.Common

/-!
# The operations as arithmetic

What the sixteen operations compute, said without the formulas that compute it.  An arithmetic
result is the exact result on integers, cut down to a word: its carry and its overflow say where
the unsigned and the signed reading of the exact result lie (`AluResult.ofExact`).  Main
statements: additions and subtractions with carry are exact (`addWithCarry_eq_ofExact`,
`subtractWithCarry_eq_ofExact`), and each of the operations gives what the table of meanings says
(`AluOperation.gives_evaluate`) and nothing else does (`AluOperation.Meaning.Gives.unique`).
-/

namespace Armv4t

/-! ### Exact results -/

/-- The result whose operands, read as unsigned and as signed numbers, give the two exact values.
It carries from the bound on, and overflows where the signed value is no signed word. -/
def AluResult.ofExact (bound unsigned signed : Int) : AluResult where
  value := BitVec.ofInt 32 unsigned
  carry := some (decide (bound ≤ unsigned))
  overflow := some (decide (signed < -0x80000000 ∨ 0x80000000 ≤ signed))

/-- An addition with carry is exact; it carries when the unsigned sum is no word. -/
theorem addWithCarry_eq_ofExact (a b : Word) (carry : Bool) :
    addWithCarry a b carry =
      .ofExact 0x100000000 (a.toNat + b.toNat + carry.toNat) (a.toInt + b.toInt + carry.toNat) := by
  have hvalue := toNat_value_addWithCarry a b carry
  have hcarry := carry_addWithCarry a b carry
  have hoverflow := overflow_addWithCarry a b carry
  have hsigned := BitVec.toInt_eq_toNat_cond (addWithCarry a b carry).value
  ext1
  -- the value is the sum cut down to a word
  · apply BitVec.eq_of_toNat_eq
    show (addWithCarry a b carry).value.toNat = (BitVec.ofInt 32 _).toNat
    rw [hvalue, BitVec.toNat_ofInt]
    omega
  · show (addWithCarry a b carry).carry = some (decide _)
    -- the carry is what was cut off
    rw [hcarry, Option.some.injEq, decide_eq_decide]
    omega
  · show (addWithCarry a b carry).overflow = some (decide _)
    rw [hoverflow, Option.some.injEq, decide_eq_decide, hsigned, hvalue,
      BitVec.toInt_eq_toNat_cond, BitVec.toInt_eq_toNat_cond]
    -- overflow is a sign of the value that the exact sum does not have
    have ha := a.isLt
    have hb := b.isLt
    have hc := carry.toNat_le
    omega

/-- A word more in the bound and in the unsigned value is not seen in the result. -/
theorem AluResult.ofExact_add (bound unsigned signed : Int) :
    ofExact (bound + 0x100000000) (unsigned + 0x100000000) signed =
      ofExact bound unsigned signed := by
  -- the value and the carry do not see a word's worth in bound and sum
  ext1
  · apply BitVec.eq_of_toNat_eq
    show (BitVec.ofInt 32 _).toNat = (BitVec.ofInt 32 _).toNat
    rw [BitVec.toNat_ofInt, BitVec.toNat_ofInt]
    omega
  · show some (decide _) = some (decide _)
    rw [Option.some.injEq, decide_eq_decide]
    omega
  · rfl

/-- The complement of a word counts down from the greatest word, and from `-1`. -/
theorem toNat_not_toInt_not (word : Word) :
    ((~~~word).toNat : Int) = 0xFFFFFFFF - word.toNat ∧ (~~~word).toInt = -1 - word.toInt := by
  have hlt := word.isLt
  have hunsigned : ((~~~word).toNat : Int) = 0xFFFFFFFF - word.toNat := by
    rw [BitVec.toNat_not]
    omega
  refine ⟨hunsigned, ?_⟩
  rw [BitVec.toInt_eq_toNat_cond, BitVec.toInt_eq_toNat_cond]
  omega

/-- A subtraction with carry is exact; it carries when the unsigned difference is not negative. -/
theorem subtractWithCarry_eq_ofExact (a b : Word) (carry : Bool) :
    subtractWithCarry a b carry =
      .ofExact 0 (a.toNat - b.toNat - (1 - carry.toNat))
        (a.toInt - b.toInt - (1 - carry.toNat)) := by
  obtain ⟨hunsigned, hsigned⟩ := toNat_not_toInt_not b
  rw [subtractWithCarry_eq, addWithCarry_eq_ofExact, ← AluResult.ofExact_add 0, hunsigned, hsigned]
  congr 1
  · omega
  · omega

/-! ### Meanings -/

namespace AluOperation

/-- What an operation makes of its operands. -/
inductive Meaning where
  /-- Each bit of the result comes from the bits at its place. -/
  | bitwise (bit : Bool → Bool → Bool)
  /-- The exact result is a sum, of the operands and perhaps of the carry. -/
  | sum (exact : Int → Int → Int → Int)
  /-- The exact result is a difference, of the operands and perhaps of what was borrowed. -/
  | difference (exact : Int → Int → Int → Int)

/-- What each operation makes of its first operand, its second operand and the carry flag.  A
subtraction with carry takes away one more when the carry is clear. -/
def meaning : AluOperation → Meaning
  | and | tst => .bitwise fun first second => first && second
  | eor | teq => .bitwise fun first second => first ^^ second
  | orr => .bitwise fun first second => first || second
  | bic => .bitwise fun first second => first && !second
  | mov => .bitwise fun _ second => second
  | mvn => .bitwise fun _ second => !second
  | add | cmn => .sum fun first second _ => first + second
  | adc => .sum fun first second carry => first + second + carry
  | sub | cmp => .difference fun first second _ => first - second
  | sbc => .difference fun first second carry => first - second - (1 - carry)
  | rsb => .difference fun first second _ => second - first
  | rsc => .difference fun first second carry => second - first - (1 - carry)

/-- The result that a meaning gives on a first operand, a shifter output and the carry flag.  A
bitwise result takes its carry from the shifter and has no overflow.  An arithmetic one is exact: a
sum carries when it is no word, and a difference when nothing is borrowed. -/
def Meaning.Gives (meaning : Meaning) (first : Word) (second : Shifted) (carry : Bool)
    (result : AluResult) : Prop :=
  match meaning with
  | bitwise bit =>
    (∀ i < 32, result.value.getLsbD i = bit (first.getLsbD i) (second.value.getLsbD i)) ∧
      result.carry = second.carry ∧ result.overflow = none
  | sum exact =>
    result = .ofExact 0x100000000 (exact first.toNat second.value.toNat carry.toNat)
      (exact first.toInt second.value.toInt carry.toNat)
  | difference exact =>
    result = .ofExact 0 (exact first.toNat second.value.toNat carry.toNat)
      (exact first.toInt second.value.toInt carry.toNat)

variable (operation : AluOperation) (first : Word) (second : Shifted) (carry : Bool)

/-- **An operation gives the result that its meaning says.** -/
theorem gives_evaluate :
    operation.meaning.Gives first second carry (operation.evaluate first second carry) := by
  -- bitwise operations pass the shifter's carry through and leave the overflow alone
  have hbits {bit : Bool → Bool → Bool} {value : Word}
      (h : ∀ i < 32, value.getLsbD i = bit (first.getLsbD i) (second.value.getLsbD i)) :
      (Meaning.bitwise bit).Gives first second carry ⟨value, second.carry, none⟩ := ⟨h, rfl, rfl⟩
  cases operation with
  | and | tst | eor | teq | orr =>
    apply hbits
    intro i _
    simp
  | bic | mvn =>
    apply hbits
    intro i hi
    simp [hi]
  | mov => exact hbits fun _ _ => rfl
  -- without carry, addition is addition with a carry of zero
  | add | cmn =>
    refine (addWithCarry_eq_ofExact first second.value false).trans ?_
    simp
  | adc => exact addWithCarry_eq_ofExact first second.value carry
  -- and subtraction is subtraction with a carry of one, which is no borrow
  | sub | cmp =>
    refine (subtractWithCarry_eq_ofExact first second.value true).trans ?_
    simp
  | rsb =>
    refine (subtractWithCarry_eq_ofExact second.value first true).trans ?_
    simp
  | sbc => exact subtractWithCarry_eq_ofExact first second.value carry
  | rsc => exact subtractWithCarry_eq_ofExact second.value first carry

variable {first second carry}

/-- A meaning gives one result only. -/
theorem Meaning.Gives.unique {meaning : Meaning} {result result' : AluResult}
    (h : meaning.Gives first second carry result) (h' : meaning.Gives first second carry result') :
    result = result' := by
  cases meaning with
  | bitwise bit =>
    obtain ⟨hbits, hcarry, hoverflow⟩ := h
    obtain ⟨hbits', hcarry', hoverflow'⟩ := h'
    ext1
    -- every bit of the value is given
    · apply BitVec.eq_of_getLsbD_eq
      intro i hi
      rw [hbits i hi, hbits' i hi]
    · rw [hcarry, hcarry']
    · rw [hoverflow, hoverflow']
  | sum exact => rw [h, h']
  | difference exact => rw [h, h']

end AluOperation

/-! ### Flags -/

/-- The flags after a result: the sign and the zeroness of its value, and its carry and its overflow
where it has them. -/
structure Flags.SetBy (result : AluResult) (before after : Flags) : Prop where
  negative : after.negative = true ↔ result.value.toInt < 0
  zero : after.zero = true ↔ result.value = 0
  carry : after.carry = result.carry.getD before.carry
  overflow : after.overflow = result.overflow.getD before.overflow

theorem Flags.setBy_after (flags : Flags) (result : AluResult) :
    SetBy result flags (flags.after result) where
  negative := by
    show result.value.msb = true ↔ _
    rw [BitVec.msb_eq_toInt, decide_eq_true_iff]
  zero := beq_iff_eq
  carry := rfl
  overflow := rfl

/-- A result sets the flags in one way only. -/
theorem Flags.SetBy.eq_after {result : AluResult} {before after : Flags}
    (h : SetBy result before after) : after = before.after result := by
  have hset := before.setBy_after result
  have hnegative : after.negative = (before.after result).negative :=
    Bool.eq_iff_iff.2 (h.negative.trans hset.negative.symm)
  have hzero : after.zero = (before.after result).zero :=
    Bool.eq_iff_iff.2 (h.zero.trans hset.zero.symm)
  have hcarry : after.carry = (before.after result).carry := h.carry
  have hoverflow : after.overflow = (before.after result).overflow := h.overflow
  -- the four flags are all there is
  obtain ⟨negative, zero, carry, overflow⟩ := after
  dsimp only at hnegative hzero hcarry hoverflow
  rw [hnegative, hzero, hcarry, hoverflow]

end Armv4t

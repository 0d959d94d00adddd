import Armv4t.Shift
import Mathlib.Logic.Function.Iterate
import Mathlib.Tactic.Common

/-!
# The barrel shifter, one bit at a time

A shift by one bit lets a bit in at one end of a word and pushes another out at the other end:
`ShiftKind.step`.  `ShiftKind.steps` repeats it.  Main statement: the tables of the barrel shifter
are these repetitions (`shifter_repeats_step`), whatever the amount, where an amount of zero may
stand for another number of steps or for a rotation through the carry flag.

After `n` steps the value has moved by `n` bits (`ShiftKind.moved`), and the carry is the bit that
went out last (`ShiftKind.lastOut`).  That these two are right is an induction on `n`
(`ShiftKind.steps_eq`); that the tables compute them is a matter of the ranges of the amount.
-/

namespace Armv4t

/-! ### One step -/

/-- A word shifted left by one bit, with the bit that is let in at its bottom. -/
def Shifted.pushLeft (value : Word) (entering : Bool) : Shifted :=
  ⟨(value.extractLsb' 0 31 ++ BitVec.ofBool entering : BitVec (31 + 1)), some (value.getLsbD 31)⟩

/-- A word shifted right by one bit, with the bit that is let in at its top. -/
def Shifted.pushRight (entering : Bool) (value : Word) : Shifted :=
  ⟨(BitVec.ofBool entering ++ value.extractLsb' 1 31 : BitVec (1 + 31)), some (value.getLsbD 0)⟩

/-- The carry and a word as one word of 33 bits, rotated right by one bit. -/
def Shifted.rotateThrough (carry : Bool) (value : Word) : Shifted :=
  let rotated := (BitVec.ofBool carry ++ value : BitVec (1 + 32)).rotateRight 1
  ⟨rotated.extractLsb' 0 32, some (rotated.getLsbD 32)⟩

namespace ShiftKind

/-- A shift by one bit.  What is let in is a clear bit, a copy of the sign, or the bit that is
pushed out. -/
def step (kind : ShiftKind) (shifted : Shifted) : Shifted :=
  match kind with
  | lsl => .pushLeft shifted.value false
  | lsr => .pushRight false shifted.value
  | asr => .pushRight (shifted.value.getLsbD 31) shifted.value
  | ror => .pushRight (shifted.value.getLsbD 0) shifted.value

/-- A number of shifts by one bit.  Without any there is no carry. -/
def steps (kind : ShiftKind) (value : Word) (n : Nat) : Shifted :=
  kind.step^[n] ⟨value, none⟩

/-- The steps that an immediate amount stands for. -/
def immediateSteps (kind : ShiftKind) (value : Word) (amount : BitVec 5) (carry : Bool) :
    Shifted :=
  if amount = 0 then
    match kind with
    | lsl => lsl.steps value 0
    | lsr => lsr.steps value 32
    | asr => asr.steps value 32
    | ror => .rotateThrough carry value
  else kind.steps value amount.toNat

/-! ### Many steps -/

/-- A value moved by a number of bits. -/
def moved (kind : ShiftKind) (value : Word) (n : Nat) : Word :=
  match kind with
  | lsl => value <<< n
  | lsr => value >>> n
  | asr => value.sshiftRight n
  | ror => value.rotateRight n

/-- The last of the bits that a positive number of steps pushes out. -/
def lastOut (kind : ShiftKind) (value : Word) (n : Nat) : Bool :=
  match kind with
  | lsl => decide (n ≤ 32) && value.getLsbD (32 - n)
  | lsr => value.getLsbD (n - 1)
  | asr => if n ≤ 32 then value.getLsbD (n - 1) else value.getLsbD 31
  | ror => value.getLsbD ((n - 1) % 32)

/-- The bits of a rotated word, counted around it. -/
theorem getLsbD_rotateRight (value : Word) (n : Nat) {i : Nat} (h : i < 32) :
    (value.rotateRight n).getLsbD i = value.getLsbD ((n + i) % 32) := by
  rw [BitVec.getLsbD_rotateRight, Bool.cond_decide]
  by_cases hi : i < 32 - n % 32
  · have hsame : (n + i) % 32 = n % 32 + i := by omega
    rw [if_pos hi, hsame]
  · have haround : (n + i) % 32 = i - (32 - n % 32) := by omega
    rw [if_neg hi, haround, decide_eq_true h, Bool.true_and]

theorem getLsbD_sshiftRight (value : Word) (n : Nat) {i : Nat} (h : i < 32) :
    (value.sshiftRight n).getLsbD i =
      if n + i < 32 then value.getLsbD (n + i) else value.getLsbD 31 := by
  have hin : ¬32 ≤ i := by omega
  rw [BitVec.getLsbD_sshiftRight, decide_eq_false hin, Bool.not_false, Bool.true_and,
    BitVec.msb_eq_getLsbD_last]

theorem getLsbD_pushRight (entering : Bool) (value : Word) {i : Nat} (h : i < 32) :
    (Shifted.pushRight entering value).value.getLsbD i =
      if i < 31 then value.getLsbD (i + 1) else entering := by
  show (BitVec.ofBool entering ++ value.extractLsb' 1 31 : BitVec (1 + 31)).getLsbD i = _
  rw [BitVec.getLsbD_append]
  by_cases hi : i < 31
  · rw [if_pos hi, if_pos hi, BitVec.getLsbD_extractLsb', decide_eq_true hi, Bool.true_and,
      Nat.add_comm]
  · have htop : i - 31 = 0 := by omega
    rw [if_neg hi, if_neg hi, htop]
    simp

theorem getLsbD_pushLeft (value : Word) (entering : Bool) {i : Nat} (h : i < 32) :
    (Shifted.pushLeft value entering).value.getLsbD i =
      if i = 0 then entering else value.getLsbD (i - 1) := by
  show (value.extractLsb' 0 31 ++ BitVec.ofBool entering : BitVec (31 + 1)).getLsbD i = _
  rw [BitVec.getLsbD_append]
  by_cases hi : i = 0
  · subst hi
    simp
  · have hone : ¬i < 1 := by omega
    have hin : i - 1 < 31 := by omega
    rw [if_neg hone, if_neg hi, BitVec.getLsbD_extractLsb', decide_eq_true hin, Bool.true_and,
      Nat.zero_add]

/-- One step more moves the value by one bit more. -/
theorem value_step_moved (kind : ShiftKind) (value : Word) (n : Nat) (carry : Option Bool) :
    (kind.step ⟨kind.moved value n, carry⟩).value = kind.moved value (n + 1) := by
  apply BitVec.eq_of_getLsbD_eq
  intro i hi
  cases kind with
  -- for each kind, bit `i` comes from the same bit of the value, by one step and by the others
  | lsl =>
    show (Shifted.pushLeft (value <<< n) false).value.getLsbD i = (value <<< (n + 1)).getLsbD i
    rw [getLsbD_pushLeft _ _ hi, BitVec.getLsbD_shiftLeft, BitVec.getLsbD_shiftLeft]
    -- a zero comes in at the bottom
    by_cases hzero : i = 0
    · simp [hzero]
    · have hsub : i - 1 - n = i - (n + 1) := by omega
      have hlt : i - 1 < n ↔ i < n + 1 := by omega
      have hin : i - 1 < 32 := by omega
      rw [if_neg hzero, hsub, decide_eq_decide.2 hlt, decide_eq_true hi, decide_eq_true hin]
  | lsr =>
    show (Shifted.pushRight false (value >>> n)).value.getLsbD i = (value >>> (n + 1)).getLsbD i
    rw [getLsbD_pushRight _ _ hi, BitVec.getLsbD_ushiftRight, BitVec.getLsbD_ushiftRight]
    have hadd : n + 1 + i = n + (i + 1) := by omega
    rw [hadd]
    by_cases htop : i < 31
    · rw [if_pos htop]
    -- a zero comes in at the top
    · rw [if_neg htop, BitVec.getLsbD_of_ge _ _ (by omega)]
  | asr =>
    show (Shifted.pushRight ((value.sshiftRight n).getLsbD 31) (value.sshiftRight n)).value.getLsbD
      i = (value.sshiftRight (n + 1)).getLsbD i
    rw [getLsbD_pushRight _ _ hi, getLsbD_sshiftRight _ _ hi,
      getLsbD_sshiftRight _ _ (by decide : 31 < 32)]
    by_cases htop : i < 31
    · have hadd : n + 1 + i = n + (i + 1) := by omega
      rw [if_pos htop, getLsbD_sshiftRight _ _ (by omega), hadd]
    · -- the sign is let in, and the top bit is the sign already
      have hbeyond : ¬n + 1 + i < 32 := by omega
      rw [if_neg htop, if_neg hbeyond]
      by_cases hn : n = 0
      · simp [hn]
      · rw [if_neg (by omega)]
  | ror =>
    show (Shifted.pushRight ((value.rotateRight n).getLsbD 0) (value.rotateRight n)).value.getLsbD
      i = (value.rotateRight (n + 1)).getLsbD i
    rw [getLsbD_pushRight _ _ hi, getLsbD_rotateRight _ _ hi,
      getLsbD_rotateRight _ _ (by decide : 0 < 32)]
    by_cases htop : i < 31
    · have hadd : n + 1 + i = n + (i + 1) := by omega
      rw [if_pos htop, getLsbD_rotateRight _ _ (by omega), hadd]
    -- the lowest bit comes in at the top
    · have haround : (n + 1 + i) % 32 = (n + 0) % 32 := by omega
      rw [if_neg htop, haround]

/-- One step more pushes out the bit that has come to the end by then. -/
theorem carry_step_moved (kind : ShiftKind) (value : Word) (n : Nat) (carry : Option Bool) :
    (kind.step ⟨kind.moved value n, carry⟩).carry = some (kind.lastOut value (n + 1)) := by
  cases kind with
  | lsl =>
    -- bit 31 comes from bit `31 - n`, unless everything has been moved out
    show some ((value <<< n).getLsbD 31) =
      some (decide (n + 1 ≤ 32) && value.getLsbD (32 - (n + 1)))
    have hsub : 32 - (n + 1) = 31 - n := by omega
    have hle : n + 1 ≤ 32 ↔ ¬31 < n := by omega
    rw [BitVec.getLsbD_shiftLeft, hsub, decide_eq_decide.2 hle, decide_not]
    rfl
  | lsr =>
    show some ((value >>> n).getLsbD 0) = some (value.getLsbD (n + 1 - 1))
    rw [BitVec.getLsbD_ushiftRight]
    rfl
  | asr =>
    -- beyond the word, the bit moved out is a copy of the sign
    show some ((value.sshiftRight n).getLsbD 0) =
      some (if n + 1 ≤ 32 then value.getLsbD (n + 1 - 1) else value.getLsbD 31)
    rw [getLsbD_sshiftRight _ _ (by decide)]
    rfl
  | ror =>
    show some ((value.rotateRight n).getLsbD 0) = some (value.getLsbD ((n + 1 - 1) % 32))
    rw [getLsbD_rotateRight _ _ (by decide)]
    rfl

theorem moved_zero (kind : ShiftKind) (value : Word) : kind.moved value 0 = value := by
  cases kind with
  | lsl => exact BitVec.shiftLeft_zero value
  | lsr => exact BitVec.ushiftRight_zero value
  | asr => exact BitVec.sshiftRight_zero
  | ror =>
    apply BitVec.eq_of_getLsbD_eq
    intro i hi
    show (value.rotateRight 0).getLsbD i = value.getLsbD i
    rw [getLsbD_rotateRight value 0 hi, Nat.zero_add, Nat.mod_eq_of_lt hi]

/-- A positive number of steps moves the value by as many bits, whatever the carry before. -/
theorem iterate_step (kind : ShiftKind) (value : Word) {n : Nat} (h : 0 < n)
    (carry : Option Bool) :
    kind.step^[n] ⟨value, carry⟩ = ⟨kind.moved value n, some (kind.lastOut value n)⟩ := by
  -- the induction is on the steps after the first
  obtain ⟨n, rfl⟩ : ∃ m, n = m + 1 := ⟨n - 1, by omega⟩
  clear h
  induction n with
  | zero =>
    have hvalue := kind.value_step_moved value 0 carry
    have hcarry := kind.carry_step_moved value 0 carry
    rw [moved_zero] at hvalue hcarry
    show kind.step ⟨value, carry⟩ = _
    rw [← hvalue, ← hcarry]
  | succ n ih =>
    rw [Function.iterate_succ_apply', ih, ← kind.value_step_moved value (n + 1),
      ← kind.carry_step_moved value (n + 1)]

theorem steps_eq (kind : ShiftKind) (value : Word) {n : Nat} (h : 0 < n) :
    kind.steps value n = ⟨kind.moved value n, some (kind.lastOut value n)⟩ :=
  kind.iterate_step value h none

/-! ### The tables -/

/-- A value moved right by a word or more is filled with its sign. -/
theorem moved_asr_of_ge (value : Word) {n : Nat} (h : 32 ≤ n) :
    asr.moved value n = signFill value := by
  apply BitVec.eq_of_getLsbD_eq
  intro i hi
  have hbeyond : ¬n + i < 32 := by omega
  have hones : (-1 : Word) = BitVec.allOnes 32 := by decide
  show (value.sshiftRight n).getLsbD i = _
  rw [getLsbD_sshiftRight _ _ hi, if_neg hbeyond]
  unfold signFill
  rw [BitVec.msb_eq_getLsbD_last, hones]
  cases value.getLsbD (32 - 1) with
  | false => rw [if_neg Bool.false_ne_true, BitVec.ofNat_eq_ofNat, BitVec.getLsbD_zero]
  | true => rw [if_pos rfl, BitVec.getLsbD_allOnes, decide_eq_true hi]

/-- Rotations by amounts that differ by whole words are the same. -/
theorem moved_ror_mod (value : Word) (n : Nat) : ror.moved value (n % 32) = ror.moved value n :=
  BitVec.rotateRight_mod_eq_rotateRight

/-- The low byte of a register is the remainder of its value. -/
theorem toNat_lowByte (amount : Word) : (amount.extractLsb' 0 8).toNat = amount.toNat % 256 := by
  rw [BitVec.extractLsb'_toNat]
  rfl

section Amounts

variable (kind : ShiftKind) (value amount : Word)

/-- A shift by a register may move the value by less than a word. -/
theorem byRegister_of_lt (hpos : 0 < amount.toNat % 256) (hlt : amount.toNat % 256 < 32) :
    kind.byRegister value amount =
      ⟨kind.moved value (amount.toNat % 256), some (kind.lastOut value (amount.toNat % 256))⟩ := by
  unfold byRegister
  rw [toNat_lowByte]
  -- only the number of steps matters, not the word that it comes from
  generalize amount.toNat % 256 = n at hpos hlt
  have hne : n ≠ 0 := by omega
  have hle : n ≤ 32 := by omega
  dsimp only
  rw [if_neg hne]
  cases kind with
  | lsl =>
    dsimp only [moved, lastOut]
    rw [if_pos hlt, decide_eq_true hle, Bool.true_and]
  | lsr =>
    dsimp only [moved, lastOut]
    rw [if_pos hlt]
  | asr =>
    dsimp only [moved, lastOut]
    rw [if_pos hlt, if_pos hle]
  | ror =>
    -- less than a whole turn
    have hmod : n % 32 = n := Nat.mod_eq_of_lt hlt
    have hlast : (n - 1) % 32 = n - 1 := Nat.mod_eq_of_lt (by omega)
    dsimp only [moved, lastOut]
    rw [hmod, if_neg hne, hlast]

/-- It may move the value by a word or more, where a rotation goes around whole words. -/
theorem byRegister_of_ge (hge : 32 ≤ amount.toNat % 256) :
    kind.byRegister value amount =
      ⟨kind.moved value (amount.toNat % 256), some (kind.lastOut value (amount.toNat % 256))⟩ := by
  unfold byRegister
  rw [toNat_lowByte]
  generalize amount.toNat % 256 = n at hge
  have hne : n ≠ 0 := by omega
  have hnot : ¬n < 32 := by omega
  dsimp only
  rw [if_neg hne]
  cases kind with
  | lsl =>
    dsimp only [moved, lastOut]
    rw [if_neg hnot, BitVec.shiftLeft_eq_zero hge]
    by_cases heq : n = 32
    · subst heq
      rfl
    · have hgt : ¬n ≤ 32 := by omega
      rw [if_neg heq, decide_eq_false hgt, Bool.false_and]
      rfl
  | lsr =>
    dsimp only [moved, lastOut]
    rw [if_neg hnot, BitVec.ushiftRight_eq_zero hge]
    by_cases heq : n = 32
    · subst heq
      rw [if_pos rfl, BitVec.msb_eq_getLsbD_last]
      rfl
    · rw [if_neg heq, BitVec.getLsbD_of_ge _ _ (by omega)]
      rfl
  | asr =>
    rw [moved_asr_of_ge value hge]
    dsimp only [lastOut]
    rw [if_neg hnot, BitVec.msb_eq_getLsbD_last]
    -- the bit that goes out last is the sign, also when it is the top bit itself
    by_cases heq : n = 32
    · subst heq
      rfl
    · have hgt : ¬n ≤ 32 := by omega
      rw [if_neg hgt]
  | ror =>
    rw [← moved_ror_mod]
    dsimp only [lastOut]
    by_cases hmod : n % 32 = 0
    · have htop : (n - 1) % 32 = 32 - 1 := by omega
      rw [if_pos hmod, hmod, moved_zero, htop, BitVec.msb_eq_getLsbD_last]
    · have hlast : (n - 1) % 32 = n % 32 - 1 := by omega
      rw [if_neg hmod, hlast]
      rfl

end Amounts

/-- A shift by the low byte of a register takes as many steps as the byte says. -/
theorem byRegister_eq_steps (kind : ShiftKind) (value amount : Word) :
    kind.byRegister value amount = kind.steps value (amount.toNat % 256) := by
  rcases Nat.eq_zero_or_pos (amount.toNat % 256) with hzero | hpos
  · unfold byRegister
    rw [toNat_lowByte, hzero]
    rfl
  · rw [steps_eq kind value hpos]
    rcases Nat.lt_or_ge (amount.toNat % 256) 32 with hlt | hge
    · exact kind.byRegister_of_lt value amount hpos hlt
    · exact kind.byRegister_of_ge value amount hge

/-- A rotation through the carry is a step to the right that lets the carry in. -/
theorem rotateThrough_eq (carry : Bool) (value : Word) :
    Shifted.rotateThrough carry value = .pushRight carry value := by
  -- the carry and the word are thirty-three bits, which one step turns round
  have hbit (i : Nat) (hi : i < 33) :
      ((BitVec.ofBool carry ++ value : BitVec (1 + 32)).rotateRight 1).getLsbD i =
        if i < 31 then value.getLsbD (i + 1)
        else if i = 31 then carry else value.getLsbD 0 := by
    rw [BitVec.getLsbD_rotateRight, BitVec.getLsbD_append, BitVec.getLsbD_append]
    rcases (by omega : i < 31 ∨ i = 31 ∨ i = 32) with hlow | rfl | rfl
    · have hin : i < 1 + 32 - 1 % (1 + 32) := by omega
      have hnext : 1 % (1 + 32) + i = i + 1 := by omega
      have hword : i + 1 < 32 := by omega
      rw [decide_eq_true hin, cond_true, hnext, if_pos hword, if_pos hlow]
    · cases carry <;> rfl
    · rfl
  have hvalue : (Shifted.rotateThrough carry value).value =
      (Shifted.pushRight carry value).value := by
    apply BitVec.eq_of_getLsbD_eq
    intro i hi
    rw [getLsbD_pushRight _ _ hi]
    unfold Shifted.rotateThrough
    dsimp only
    rw [BitVec.getLsbD_extractLsb', decide_eq_true hi, Bool.true_and, Nat.zero_add,
      hbit i (by omega)]
    by_cases hlow : i < 31
    -- bit 31 is the old carry
    · rw [if_pos hlow, if_pos hlow]
    · have htop : i = 31 := by omega
      rw [if_neg hlow, if_neg hlow, if_pos htop]
  have hcarry : (Shifted.rotateThrough carry value).carry =
      (Shifted.pushRight carry value).carry := congrArg some (hbit 32 (by decide))
  exact congrArg₂ Shifted.mk hvalue hcarry

/-- A shift by a positive immediate moves the value by as many bits. -/
theorem byImmediate_of_ne_zero (kind : ShiftKind) (value : Word) {amount : BitVec 5}
    (h : amount ≠ 0) (carry : Bool) :
    kind.byImmediate value amount carry =
      ⟨kind.moved value amount.toNat, some (kind.lastOut value amount.toNat)⟩ := by
  have hne : amount.toNat ≠ 0 := fun hzero => h (BitVec.eq_of_toNat_eq hzero)
  have hlt : amount.toNat < 32 := amount.isLt
  unfold byImmediate
  -- an amount of five bits is below thirty-two, so that no case beyond the word is left
  generalize amount.toNat = n at hne hlt
  have hle : n ≤ 32 := by omega
  dsimp only
  cases kind with
  | lsl =>
    dsimp only [moved, lastOut]
    rw [if_neg hne, decide_eq_true hle, Bool.true_and]
  | lsr =>
    dsimp only [moved, lastOut]
    rw [if_neg hne]
  | asr =>
    dsimp only [moved, lastOut]
    rw [if_neg hne, if_pos hle]
  | ror =>
    have hlast : (n - 1) % 32 = n - 1 := Nat.mod_eq_of_lt (by omega)
    dsimp only [moved, lastOut]
    rw [if_neg hne, hlast]

/-- A shift by an immediate takes the steps that the immediate stands for. -/
theorem byImmediate_eq_steps (kind : ShiftKind) (value : Word) (amount : BitVec 5)
    (carry : Bool) :
    kind.byImmediate value amount carry = kind.immediateSteps value amount carry := by
  by_cases hzero : amount = 0
  · subst hzero
    unfold immediateSteps
    rw [if_pos rfl]
    cases kind with
    -- an amount of zero stands for thirty-two, but for `LSL` and `ROR`
    | lsl => rfl
    | lsr =>
      dsimp only
      rw [steps_eq lsr value (by decide)]
      dsimp only [moved, lastOut]
      rw [BitVec.ushiftRight_eq_zero (Nat.le_refl 32)]
      show Shifted.mk 0 (some value.msb) = _
      rw [BitVec.msb_eq_getLsbD_last]
      rfl
    | asr =>
      dsimp only
      rw [steps_eq asr value (by decide), moved_asr_of_ge value (Nat.le_refl 32)]
      show Shifted.mk (signFill value) (some value.msb) = _
      rw [BitVec.msb_eq_getLsbD_last]
      rfl
    | ror => exact (rotateThrough_eq carry value).symm
  -- any other amount is the number of steps
  · have hpos : 0 < amount.toNat := by
      apply Nat.pos_of_ne_zero
      intro hnat
      exact hzero (BitVec.eq_of_toNat_eq hnat)
    unfold immediateSteps
    rw [if_neg hzero, kind.byImmediate_of_ne_zero value hzero, steps_eq kind value hpos]

end ShiftKind

/-- The rotated immediate takes two steps of a rotation for each unit of its amount. -/
theorem rotatedImmediate_eq_steps (immediate : BitVec 8) (amount : BitVec 4) :
    rotatedImmediate immediate amount =
      ShiftKind.ror.steps (immediate.setWidth 32) (2 * amount.toNat) := by
  unfold rotatedImmediate
  dsimp only
  by_cases hzero : amount = 0
  · subst hzero
    rw [if_pos rfl]
    exact congrArg (Shifted.mk · none) (ShiftKind.ror.moved_zero (immediate.setWidth 32))
  · have hne : amount.toNat ≠ 0 := fun hnat => hzero (BitVec.eq_of_toNat_eq hnat)
    have hlt : amount.toNat < 16 := amount.isLt
    have hmod : (2 * amount.toNat - 1) % 32 = (2 * amount.toNat + 31) % 32 := by omega
    rw [if_neg hzero, ShiftKind.ror.steps_eq _ (by omega)]
    -- the top bit of the rotated value is the bit that went out last
    dsimp only [ShiftKind.moved, ShiftKind.lastOut]
    rw [BitVec.msb_eq_getLsbD_last, ShiftKind.getLsbD_rotateRight _ _ (by decide), hmod]

/-- **The barrel shifter repeats a shift by one bit.**  A shift by a register takes as many steps as
the low byte of the register says, and leaves the carry as it was only if that is none.  A shift by
an immediate takes as many as the immediate says, where zero stands for 32 steps to the right, or
for one rotation of the 33 bits of carry and value.  A rotated immediate takes two steps for each
unit of the low four bits of its amount.  A shift by an immediate and one by a register are
therefore the same for all amounts from 1 to 31. -/
theorem shifter_repeats_step :
    (∀ (kind : ShiftKind) (value amount : Word),
      kind.byRegister value amount = kind.steps value (amount.toNat % 256) ∧
      ∀ carry : Bool, kind.step^[amount.toNat % 256] ⟨value, some carry⟩ =
        ⟨(kind.byRegister value amount).value,
          some ((kind.byRegister value amount).carry.getD carry)⟩) ∧
    (∀ (kind : ShiftKind) (value : Word) (amount : BitVec 5) (carry : Bool),
      kind.byImmediate value amount carry = kind.immediateSteps value amount carry) ∧
    (∀ immediate amount : Word,
      rotatedImmediate (immediate.setWidth 8) (amount.setWidth 4) =
        ShiftKind.ror.steps (immediate &&& 0xFF) (2 * (amount.toNat % 16))) ∧
    (∀ (kind : ShiftKind) (value : Word) (n : Nat) (carry : Bool), 1 ≤ n → n ≤ 31 →
      kind.byImmediate value (BitVec.ofNat 5 n) carry =
        kind.byRegister value (BitVec.ofNat 32 n)) := by
  refine ⟨fun kind value amount => ⟨kind.byRegister_eq_steps value amount, fun carry => ?_⟩,
    fun kind value amount carry => kind.byImmediate_eq_steps value amount carry,
    fun immediate amount => ?_, fun kind value n carry hpos hle => ?_⟩
  · rw [kind.byRegister_eq_steps]
    -- no step leaves the carry as it is
    rcases Nat.eq_zero_or_pos (amount.toNat % 256) with hzero | hpos
    · rw [hzero]
      rfl
    · rw [kind.iterate_step value hpos, kind.steps_eq value hpos]
      rfl
  -- the immediate is the low byte of the word, and twice the amount its rotation
  · have hbyte : (immediate.setWidth 8).setWidth 32 = immediate &&& 0xFF := by
      apply BitVec.eq_of_toNat_eq
      rw [BitVec.toNat_setWidth_of_le (by decide), BitVec.toNat_setWidth, BitVec.toNat_and]
      exact (Nat.and_two_pow_sub_one_eq_mod immediate.toNat 8).symm
    have hamount : (amount.setWidth 4).toNat = amount.toNat % 16 := BitVec.toNat_setWidth 4 amount
    rw [rotatedImmediate_eq_steps, hbyte, hamount]
  -- up to thirty-one, an amount is the same number in five bits and in a byte
  · have hfive : (BitVec.ofNat 5 n).toNat = n := by
      rw [BitVec.toNat_ofNat]
      exact Nat.mod_eq_of_lt (by omega)
    have hword : (BitVec.ofNat 32 n).toNat % 256 = n := by
      rw [BitVec.toNat_ofNat]
      omega
    have hne : BitVec.ofNat 5 n ≠ 0 := by
      intro hzero
      rw [hzero] at hfive
      have hn : 0 = n := hfive
      omega
    rw [kind.byImmediate_of_ne_zero value hne, hfive,
      kind.byRegister_of_lt value _ (by omega) (by omega), hword]

/-- A low byte of 32 fills a negative word with its sign, and 31 is the greatest amount for which an
immediate says the same. -/
theorem shifter_repeats_step_negative :
    ShiftKind.asr.steps 0x80000001 32 = ⟨0xFFFFFFFF, some true⟩ ∧
      ShiftKind.ror.byImmediate 0x80000001 31 false = ShiftKind.ror.byRegister 0x80000001 31 := by
  obtain ⟨hregister, -, -, hagree⟩ := shifter_repeats_step
  obtain ⟨hsteps, -⟩ := hregister .asr 0x80000001 0x1220
  exact ⟨hsteps.symm.trans (by decide), hagree .ror 0x80000001 31 false (by decide) (by decide)⟩

end Armv4t

import Armv4t.Register
import Mathlib.Algebra.Group.Int.Defs
import Mathlib.Algebra.Group.Nat.Defs
import Mathlib.Tactic.Common

/-!
# Arithmetic that traps

A host that checks its arithmetic does not wrap around: a sum, difference or product that leaves its
type, a shift by at least the width and an index outside its array stop it.  A `Checked` computation
is one on such a host.  Beside each operation stands the condition under which it does not trap and
the value that it then has, so that `simp` evaluates a computation whose operands are in range.

The bit fields of words and halfwords are read and written by masks and shifts (`getBit`, `getBits`,
`setBit`, `setBits`); their lemmas say which bits they are.
-/

namespace Armv4t.Trapping

/-- What stops the host. -/
inductive Trap where
  /-- A sum, difference or product is out of the range of its type. -/
  | overflow
  /-- A shift by at least the width of the value. -/
  | shiftAmount
  /-- An index or a slice leaves its array, or two slices differ in length. -/
  | outOfBounds
  /-- The mode is asked for and the mode field names none. -/
  | unnamedMode
  /-- A store with a signed format is to be performed. -/
  | signedStore
deriving DecidableEq, Repr

/-- Computations that may trap. -/
abbrev Checked := Except Trap

@[simp] theorem pure_eq_ok {α : Type} (value : α) : (pure value : Checked α) = .ok value := rfl

@[simp] theorem ok_bind {α β : Type} (value : α) (next : α → Checked β) :
    ((Except.ok value : Checked α) >>= next) = next value := rfl

/-! ### Operations on words -/

section Operations

variable {w : Nat}

/-- The sum of two unsigned numbers. -/
def add (a b : BitVec w) : Checked (BitVec w) :=
  if a.uaddOverflow b then .error .overflow else .ok (a + b)

/-- The difference of two unsigned numbers. -/
def sub (a b : BitVec w) : Checked (BitVec w) :=
  if a.usubOverflow b then .error .overflow else .ok (a - b)

/-- The product of two unsigned numbers. -/
def mul (a b : BitVec w) : Checked (BitVec w) :=
  if a.umulOverflow b then .error .overflow else .ok (a * b)

/-- The product of two signed numbers. -/
def mulSigned (a b : BitVec w) : Checked (BitVec w) :=
  if a.smulOverflow b then .error .overflow else .ok (a * b)

/-- A shift to the left. -/
def shl (value : BitVec w) (amount : Nat) : Checked (BitVec w) :=
  if amount < w then .ok (value <<< amount) else .error .shiftAmount

/-- A shift to the right that fills with zeros. -/
def shr (value : BitVec w) (amount : Nat) : Checked (BitVec w) :=
  if amount < w then .ok (value >>> amount) else .error .shiftAmount

/-- A shift to the right that fills with the sign. -/
def sar (value : BitVec w) (amount : Nat) : Checked (BitVec w) :=
  if amount < w then .ok (value.sshiftRight amount) else .error .shiftAmount

variable {a b value : BitVec w} {amount : Nat}

theorem add_eq_ok (h : a.toNat + b.toNat < 2 ^ w) : add a b = .ok (a + b) := by
  unfold add
  rw [if_neg]
  simpa [BitVec.uaddOverflow] using h

theorem sub_eq_ok (h : b.toNat ≤ a.toNat) : sub a b = .ok (a - b) := by
  unfold sub
  rw [if_neg]
  simpa [BitVec.usubOverflow] using h

theorem mul_eq_ok (h : a.toNat * b.toNat < 2 ^ w) : mul a b = .ok (a * b) := by
  unfold mul
  rw [if_neg]
  simpa [BitVec.umulOverflow] using h

theorem mulSigned_eq_ok (h : a.toInt * b.toInt < 2 ^ (w - 1))
    (h' : -2 ^ (w - 1) ≤ a.toInt * b.toInt) : mulSigned a b = .ok (a * b) := by
  unfold mulSigned
  rw [if_neg]
  simpa [BitVec.smulOverflow] using ⟨h, h'⟩

@[simp] theorem shl_of_lt (h : amount < w) : shl value amount = .ok (value <<< amount) :=
  if_pos h

@[simp] theorem shr_of_lt (h : amount < w) : shr value amount = .ok (value >>> amount) :=
  if_pos h

@[simp] theorem sar_of_lt (h : amount < w) : sar value amount = .ok (value.sshiftRight amount) :=
  if_pos h

end Operations

/-! ### Operations on indices -/

/-- The least number that no index can be: hosts have indices of at least 32 bits. -/
def indexLimit : Nat := 0x100000000

/-- The sum of two indices. -/
def addIndex (a b : Nat) : Checked Nat :=
  if a + b < indexLimit then .ok (a + b) else .error .overflow

/-- The difference of two indices. -/
def subIndex (a b : Nat) : Checked Nat :=
  if b ≤ a then .ok (a - b) else .error .overflow

@[simp] theorem addIndex_of_lt {a b : Nat} (h : a + b < indexLimit) :
    addIndex a b = .ok (a + b) :=
  if_pos h

@[simp] theorem subIndex_of_le {a b : Nat} (h : b ≤ a) : subIndex a b = .ok (a - b) :=
  if_pos h

/-! ### Arrays -/

section Arrays

variable {α : Type} {n m start stop : Nat}

/-- The element at an index. -/
def lookup (elements : Vector α n) (index : Nat) : Checked α :=
  if h : index < n then .ok elements[index] else .error .outOfBounds

/-- The elements with that at an index replaced. -/
def replace (elements : Vector α n) (index : Nat) (value : α) : Checked (Vector α n) :=
  if h : index < n then .ok (elements.set index value) else .error .outOfBounds

/-- The elements from one index up to another. -/
def slice (elements : Vector α n) (start stop : Nat) : Checked (List α) :=
  if start ≤ stop ∧ stop ≤ n then .ok ((elements.toList.take stop).drop start)
  else .error .outOfBounds

/-- All elements of an array copied from a slice of the same length. -/
def copied (n : Nat) (values : List α) : Checked (Vector α n) :=
  if h : values.length = n then .ok ⟨values.toArray, by simpa using h⟩ else .error .outOfBounds

/-- The elements with those from one index up to another copied from a slice of that length. -/
def copyInto (elements : Vector α n) (start stop : Nat) (values : List α) :
    Checked (Vector α n) :=
  if h : start ≤ stop ∧ stop ≤ n ∧ values.length = stop - start then
    .ok ⟨(elements.toList.take start ++ values ++ elements.toList.drop stop).toArray, by
      simp only [List.size_toArray, List.length_append, List.length_take, List.length_drop,
        Vector.length_toList]
      omega⟩
  else .error .outOfBounds

@[simp] theorem lookup_of_lt {elements : Vector α n} {index : Nat} (h : index < n) :
    lookup elements index = .ok elements[index] :=
  dif_pos h

@[simp] theorem replace_of_lt {elements : Vector α n} {index : Nat} {value : α} (h : index < n) :
    replace elements index value = .ok (elements.set index value) :=
  dif_pos h

/-- A slice that lies in its array and has the length of another is copied to it. -/
theorem copied_slice {elements : Vector α n} (h : start + m = stop) (h' : stop ≤ n) :
    (slice elements start stop >>= copied m) =
      .ok (.ofFn fun index : Fin m => elements[start + index.val]) := by
  have hin : start ≤ stop ∧ stop ≤ n := by omega
  have hlength : ((elements.toList.take stop).drop start).length = m := by
    simp only [List.length_drop, List.length_take, Vector.length_toList]
    omega
  simp only [slice, if_pos hin, ok_bind, copied, dif_pos hlength]
  refine congrArg Except.ok (Vector.ext fun i hi => ?_)
  simp

/-- An array is copied over a part of another that is as long. -/
theorem copyInto_toList {elements : Vector α n} {values : Vector α m} (h : start + m = stop)
    (h' : stop ≤ n) :
    copyInto elements start stop values.toList =
      .ok (.ofFn fun index : Fin n =>
        if h : start ≤ index.val ∧ index.val < stop then values[index.val - start]
        else elements[index]) := by
  have hin : start ≤ stop ∧ stop ≤ n ∧ values.toList.length = stop - start := by
    simp only [Vector.length_toList]
    omega
  simp only [copyInto, dif_pos hin]
  refine congrArg Except.ok (Vector.ext fun i hi => ?_)
  have hmin : min start n = start := by omega
  simp only [Vector.getElem_mk, List.getElem_toArray, Vector.getElem_ofFn, List.getElem_append,
    List.length_append, List.length_take, Vector.length_toList, hmin, List.getElem_take,
    List.getElem_drop, Vector.getElem_toList, Fin.getElem_fin]
  -- before the copied part, within it and behind it
  by_cases hlow : i < start
  · rw [dif_pos (by omega), dif_pos hlow, dif_neg (by omega)]
  by_cases hmid : i < stop
  · rw [dif_pos (by omega), dif_neg hlow, dif_pos (by omega)]
  · have hi' : stop + (i - (start + m)) = i := by omega
    rw [dif_neg (by omega), dif_neg (by omega)]
    simp only [hi']

/-- A table whose entries are computed by a function. -/
def table (n : Nat) (entry : Nat → Checked α) : Checked (Vector α n) :=
  Vector.ofFnM fun index : Fin n => entry index

/-- A table can be built when every entry can be computed. -/
theorem table_eq_ok {entry : Nat → Checked α} {value : Fin n → α}
    (h : ∀ index : Fin n, entry index = .ok (value index)) :
    table n entry = .ok (.ofFn value) := by
  unfold table
  simp only [h]
  exact Vector.ofFnM_pure

end Arrays

/-! ### Bit fields -/

section Fields

variable {w : Nat}

/-- Whether the bit at an offset is set. -/
def getBit (value : BitVec w) (offset : Nat) : Checked Bool := do
  let mask ← shl 1#w offset
  return value &&& mask == mask

/-- The value with the bit at an offset set or cleared. -/
def setBit (value : BitVec w) (offset : Nat) (bit : Bool) : Checked (BitVec w) := do
  let mask ← shl 1#w offset
  return if bit then value ||| mask else value &&& ~~~mask

/-- The mask of the bits from `first` to `last`. -/
def fieldMask (w first last : Nat) : Checked (BitVec w) := do
  let count ← addIndex (← subIndex last first) 1
  let ones ← shr (BitVec.allOnes w) (← subIndex w count)
  shl ones first

/-- The number in the bits from `first` to `last`. -/
def getBits (value : BitVec w) (first last : Nat) : Checked (BitVec w) := do
  if last < first then return 0
  let mask ← fieldMask w first last
  shr (value &&& mask) first

/-- The value with another number in the bits from `first` to `last`. -/
def setBits (value field : BitVec w) (first last : Nat) : Checked (BitVec w) := do
  if last < first then return value
  let mask ← fieldMask w first last
  return (← shl field first) &&& mask ||| value &&& ~~~mask

/-- The number in the low `width` bits, read as signed. -/
def signExtend (value : BitVec w) (width : Word) : Checked Word := do
  let shift ← sub 32 width
  sar (← shl (value.setWidth 32) shift.toNat) shift.toNat

/-! ### Bit fields in range -/

variable {value field : BitVec w} {offset first last : Nat}

@[simp] theorem getBit_of_lt (h : offset < w) :
    getBit value offset = .ok (value.getLsbD offset) := by
  have hbit : (BitVec.twoPow w offset).getLsbD offset = true := by
    simp [h]
  simp only [getBit, shl_of_lt h, ok_bind, pure_eq_ok, ← BitVec.twoPow_eq, BitVec.and_twoPow]
  cases hv : value.getLsbD offset with
  | true => simp
  | false =>
    -- the mask is not zero, so the value under it is not the mask
    have hne : (0#w == BitVec.twoPow w offset) = false := by
      rw [beq_eq_false_iff_ne]
      intro he
      rw [← he, BitVec.getLsbD_zero] at hbit
      exact absurd hbit (by decide)
    simp [hne]

/-- The value with the bit at an offset replaced. -/
def withBit (value : BitVec w) (offset : Nat) (bit : Bool) : BitVec w :=
  if bit then value ||| BitVec.twoPow w offset else value &&& ~~~BitVec.twoPow w offset

@[simp] theorem setBit_of_lt (bit : Bool) (h : offset < w) :
    setBit value offset bit = .ok (withBit value offset bit) := by
  simp only [setBit, shl_of_lt h, ok_bind, pure_eq_ok, ← BitVec.twoPow_eq, withBit]

theorem getLsbD_withBit (bit : Bool) (h : offset < w) (i : Nat) :
    (withBit value offset bit).getLsbD i = if i = offset then bit else value.getLsbD i := by
  cases bit with
  | true =>
    simp only [withBit, if_true, BitVec.getLsbD_or, BitVec.getLsbD_twoPow]
    -- only the bit at the offset is another one
    by_cases hi : i = offset
    · simp [hi, h]
    · simp [hi, Ne.symm hi]
  | false =>
    simp only [withBit, Bool.false_eq_true, if_false, BitVec.getLsbD_and, BitVec.getLsbD_not,
      BitVec.getLsbD_twoPow]
    by_cases hi : i = offset
    · simp [hi, h]
    · by_cases hw : i < w
      · simp [hi, Ne.symm hi, hw]
      · simp [hi, BitVec.getLsbD_of_ge value i (by omega)]

/-- Ones in the bits from `first` to `last`. -/
def fieldOnes (w first last : Nat) : BitVec w :=
  (BitVec.allOnes w >>> (w - (last - first + 1))) <<< first

theorem fieldMask_eq_ok (h : first ≤ last) (h' : last < w) (hw : w ≤ 64) :
    fieldMask w first last = .ok (fieldOnes w first last) := by
  have hsum : last - first + 1 < indexLimit := by
    unfold indexLimit
    omega
  have hcount : last - first + 1 ≤ w := by omega
  have hshift : w - (last - first + 1) < w := by omega
  have hfirst : first < w := by omega
  simp only [fieldMask, subIndex_of_le h, addIndex_of_lt hsum, subIndex_of_le hcount,
    shr_of_lt hshift, shl_of_lt hfirst, ok_bind, fieldOnes]

theorem getLsbD_fieldOnes (h : first ≤ last) (h' : last < w) (i : Nat) :
    (fieldOnes w first last).getLsbD i = decide (first ≤ i ∧ i ≤ last) := by
  simp only [fieldOnes, BitVec.getLsbD_shiftLeft, BitVec.getLsbD_ushiftRight,
    BitVec.getLsbD_allOnes]
  rw [Bool.eq_iff_iff]
  simp only [Bool.and_eq_true, Bool.not_eq_true', decide_eq_true_eq, decide_eq_false_iff_not]
  omega

theorem getBits_eq_ok (h : first ≤ last) (h' : last < w) (hw : w ≤ 64) :
    getBits value first last = .ok ((value.extractLsb' first (last + 1 - first)).setWidth w) := by
  simp only [getBits, if_neg (Nat.not_lt.2 h), fieldMask_eq_ok h h' hw, ok_bind,
    shr_of_lt (Nat.lt_of_le_of_lt h h')]
  refine congrArg Except.ok (BitVec.eq_of_getLsbD_eq fun i hi => ?_)
  rw [BitVec.getLsbD_ushiftRight, BitVec.getLsbD_and, getLsbD_fieldOnes h h',
    BitVec.getLsbD_setWidth, BitVec.getLsbD_extractLsb']
  have hrange : decide (first ≤ first + i ∧ first + i ≤ last) = decide (i < last + 1 - first) := by
    rw [decide_eq_decide]
    omega
  rw [hrange, decide_eq_true hi, Bool.true_and, Bool.and_comm]

/-- A field by its position and its length. -/
theorem getBits_field (value : BitVec w) (first last length : Nat)
    (h : first + length = last + 1 ∧ 0 < length ∧ last < w ∧ w ≤ 64) :
    getBits value first last = .ok ((value.extractLsb' first length).setWidth w) := by
  obtain ⟨hlength, hpos, hlast, hw⟩ := h
  have hlen : last + 1 - first = length := by omega
  rw [getBits_eq_ok (by omega) hlast hw, hlen]

theorem setBits_eq_ok (h : first ≤ last) (h' : last < w) (hw : w ≤ 64) :
    setBits value field first last =
      .ok ((field <<< first) &&& fieldOnes w first last |||
        value &&& ~~~fieldOnes w first last) := by
  simp only [setBits, if_neg (Nat.not_lt.2 h), fieldMask_eq_ok h h' hw, ok_bind, pure_eq_ok,
    shl_of_lt (Nat.lt_of_le_of_lt h h')]

theorem signExtend_eq_ok {width : Nat} (h : 0 < width) (h' : width ≤ 32) :
    signExtend value (BitVec.ofNat 32 width) =
      .ok (((value.setWidth 32).setWidth width).signExtend 32) := by
  have hwidth : (BitVec.ofNat 32 width).toNat = width := by
    rw [BitVec.toNat_ofNat]
    omega
  have hle : (BitVec.ofNat 32 width).toNat ≤ (32 : Word).toNat := by
    rw [hwidth]
    exact h'
  have hshift : ((32 : Word) - BitVec.ofNat 32 width).toNat = 32 - width := by
    rw [BitVec.toNat_sub_of_le hle, hwidth]
    rfl
  have hlt : 32 - width < 32 := by omega
  simp only [signExtend, sub_eq_ok hle, ok_bind, hshift, shl_of_lt hlt, sar_of_lt hlt]
  refine congrArg Except.ok (BitVec.eq_of_getLsbD_eq fun i hi => ?_)
  generalize value.setWidth 32 = word
  -- either side repeats the bit `width - 1` from there on
  have hmsb : (word <<< (32 - width)).msb = word.getLsbD (width - 1) := by
    rw [BitVec.msb_eq_getLsbD_last, BitVec.getLsbD_shiftLeft]
    rw [show 32 - 1 - (32 - width) = width - 1 by omega]
    simp
    omega
  have hmsb' : (word.setWidth width).msb = word.getLsbD (width - 1) := by
    rw [BitVec.msb_eq_getLsbD_last, BitVec.getLsbD_setWidth]
    simp
    omega
  rw [BitVec.getLsbD_sshiftRight, BitVec.getLsbD_signExtend, hmsb, hmsb']
  simp only [BitVec.getLsbD_shiftLeft, BitVec.getLsbD_setWidth]
  by_cases hin : i < width
  · rw [if_pos (by omega), if_pos hin, show 32 - width + i - (32 - width) = i by omega]
    have hup : 32 - width + i < 32 := by omega
    have hdown : ¬32 - width + i < 32 - width := by omega
    simp [hup, hdown, hi, hin]
  · rw [if_neg (by omega), if_neg hin]
    simp [hi]

/-- A field that counts units of `2 ^ k`, as a number. -/
theorem shl_field {n : Nat} (field : BitVec n) (k : Nat) :
    field.setWidth w <<< k = (field ++ 0#k).setWidth w := by
  refine BitVec.eq_of_getLsbD_eq fun i hi => ?_
  rw [BitVec.getLsbD_shiftLeft, BitVec.getLsbD_setWidth, BitVec.getLsbD_setWidth,
    BitVec.getLsbD_append, BitVec.getLsbD_zero]
  by_cases hlow : i < k
  · simp [hlow]
  · have hlt : i - k < w := by omega
    simp [hi, hlow, hlt]

/-- A field that counts units of `2 ^ k`, as a signed number. -/
theorem signExtend_shl_field {n : Nat} (field : BitVec n) (k : Nat) (h : 0 < n + k)
    (h' : n + k ≤ w ∧ w ≤ 32) :
    signExtend (field.setWidth w <<< k) (BitVec.ofNat 32 (n + k)) =
      .ok ((field ++ 0#k).signExtend 32) := by
  have hword : n + k ≤ 32 := by omega
  rw [signExtend_eq_ok h hword, shl_field, BitVec.setWidth_setWidth_of_le _ hword,
    BitVec.setWidth_setWidth_of_le _ h'.1, BitVec.setWidth_eq]

end Fields

end Armv4t.Trapping

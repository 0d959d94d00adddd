/-!
# Words, halfwords, bytes and access widths

The processor computes on 32-bit words and moves bytes, halfwords and words over its bus.  A `Width`
names one of the three sizes; `Width.align` rounds an address down to a multiple of the size
(`Width.toNat_align`) and `Width.rotation` is the number of bits by which a misaligned access
appears rotated.
-/

namespace Armv4t

/-- Eight bits. -/
abbrev Byte := BitVec 8

/-- Sixteen bits: one Thumb instruction. -/
abbrev Halfword := BitVec 16

/-- Thirty-two bits: a register, an address or one ARM instruction. -/
abbrev Word := BitVec 32

/-- The size of one bus access. -/
inductive Width where
  | byte
  | halfword
  | word
deriving DecidableEq, Repr

namespace Width

/-- The number of bytes an access of this width covers. -/
@[reducible] def bytes : Width → Nat
  | byte => 1
  | halfword => 2
  | word => 4

/-- The number of bits an access of this width carries. -/
@[reducible] def bits : Width → Nat
  | byte => 8
  | halfword => 16
  | word => 32

/-- The greatest multiple of the width that is not above `address`. -/
def align : Width → Word → Word
  | byte, address => address
  | halfword, address => address &&& ~~~1#32
  | word, address => address &&& ~~~3#32

/-- How far, in bits, `address` lies above the aligned address. -/
def rotation : Width → Word → Nat
  | byte, _ => 0
  | halfword, address => 8 * (address &&& 1#32).toNat
  | word, address => 8 * (address &&& 3#32).toNat

theorem bits_eq (w : Width) : w.bits = 8 * w.bytes := by
  cases w <;> rfl

/-- An address is its part under a mask and the rest. -/
theorem and_not_add_and (address mask : Word) :
    (address &&& ~~~mask) + (address &&& mask) = address := by
  rw [BitVec.add_eq_or_of_and_eq_zero]
  · ext i hi
    simp only [BitVec.getElem_or, BitVec.getElem_and, BitVec.getElem_not]
    cases address[i] <;> cases mask[i] <;> rfl
  · ext i hi
    simp only [BitVec.getElem_and, BitVec.getElem_not, BitVec.getElem_zero]
    cases address[i] <;> cases mask[i] <;> rfl

/-- The rotation counts the bits of the remainder of the address on division by the size. -/
theorem rotation_eq (w : Width) (address : Word) :
    w.rotation address = 8 * (address.toNat % w.bytes) := by
  cases w with
  | byte => exact (congrArg (8 * ·) (Nat.mod_one address.toNat)).symm
  | halfword =>
    have low : (address &&& 1#32).toNat = address.toNat % 2 := by
      simp [Nat.and_one_is_mod]
    exact congrArg (8 * ·) low
  | word =>
    have low : (address &&& 3#32).toNat = address.toNat % 4 := by
      simpa using Nat.and_two_pow_sub_one_eq_mod address.toNat 2
    exact congrArg (8 * ·) low

/-- Alignment removes the remainder of the address on division by the size. -/
theorem toNat_align (w : Width) (address : Word) :
    (w.align address).toNat = address.toNat - address.toNat % w.bytes := by
  have low := w.rotation_eq address
  cases w with
  | byte => simp [align, Nat.mod_one]
  | halfword =>
    have parts := congrArg BitVec.toNat (and_not_add_and address 1#32)
    have rest := (address &&& ~~~1#32).isLt
    rw [BitVec.toNat_add] at parts
    simp only [align, rotation, bytes] at *
    omega
  | word =>
    have parts := congrArg BitVec.toNat (and_not_add_and address 3#32)
    have rest := (address &&& ~~~3#32).isLt
    rw [BitVec.toNat_add] at parts
    simp only [align, rotation, bytes] at *
    omega

/-- The aligned addresses are the multiples of the size. -/
theorem align_eq_self_iff (w : Width) (address : Word) :
    w.align address = address ↔ address.toNat % w.bytes = 0 := by
  rw [← BitVec.toNat_inj, toNat_align]
  have := Nat.mod_le address.toNat w.bytes
  omega

/-- The addresses of halfwords are the even ones. -/
theorem align_halfword_eq_self_iff (address : Word) :
    halfword.align address = address ↔ address.getLsbD 0 = false := by
  have hbit : address.getLsbD 0 = decide (address.toNat % 2 = 1) := Nat.testBit_zero _
  rw [align_eq_self_iff, hbit, decide_eq_false_iff_not]
  exact Nat.mod_two_ne_one.symm

theorem align_add {w : Width} {a b : Word} (ha : w.align a = a) (hb : w.align b = b) :
    w.align (a + b) = a + b := by
  rw [align_eq_self_iff] at ha hb ⊢
  rw [BitVec.toNat_add]
  cases w <;> simp only [bytes] at * <;> omega

theorem align_sub {w : Width} {a b : Word} (ha : w.align a = a) (hb : w.align b = b) :
    w.align (a - b) = a - b := by
  rw [align_eq_self_iff] at ha hb ⊢
  have hlt := b.isLt
  rw [BitVec.toNat_sub]
  cases w <;> simp only [bytes] at * <;> omega

/-- The unit around an address reaches from its alignment as far as the width. -/
theorem align_eq_align_iff (w : Width) (address other : Word) :
    w.align other = w.align address ↔ (other - w.align address).toNat < w.bytes := by
  have hlt := address.isLt
  have hother := other.isLt
  rw [← BitVec.toNat_inj, BitVec.toNat_sub, toNat_align, toNat_align]
  cases w <;> simp only [bytes] at * <;> omega

@[simp] theorem align_align (w : Width) (address : Word) :
    w.align (w.align address) = w.align address := by
  apply BitVec.eq_of_toNat_eq
  rw [toNat_align, toNat_align]
  cases w <;> simp only [bytes] <;> omega

end Width

end Armv4t

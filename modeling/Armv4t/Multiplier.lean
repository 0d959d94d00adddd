import Armv4t.Psr

/-!
# The multiplier

Products of 32 and 64 bits and the internal cycles the multiplier needs: it takes the multiplier
operand a byte at a time and stops early when all remaining bits are zero, or all one if it is
signed.
-/

namespace Armv4t.Multiplier

/-- Whether the bits of the multiplier from position `start` on are all equal to zero, or to the
sign of a signed multiplier. -/
def isExhausted (multiplier : Word) (signed : Bool) (start : Nat) : Bool :=
  let mask : Word := -1 <<< start
  multiplier &&& mask == 0 || (signed && multiplier &&& mask == mask)

/-- The internal cycles of a multiplication, from one to four. -/
def cycles (multiplier : Word) (signed : Bool) : Nat :=
  if isExhausted multiplier signed 8 then 1
  else if isExhausted multiplier signed 16 then 2
  else if isExhausted multiplier signed 24 then 3
  else 4

/-- The 64-bit product of two words. -/
def product (a b : Word) (signed : Bool) : BitVec 64 :=
  if signed then a.signExtend 64 * b.signExtend 64 else a.setWidth 64 * b.setWidth 64

end Armv4t.Multiplier

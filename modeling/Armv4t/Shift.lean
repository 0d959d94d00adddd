import Armv4t.Word

/-!
# The barrel shifter

Four kinds of shift, each by a five-bit immediate or by the low byte of a register, and the rotated
eight-bit immediate.  Besides the value a shift yields the last bit pushed out, or nothing when no
bit moves.
-/

namespace Armv4t

/-- The kinds of shift. -/
inductive ShiftKind where
  | lsl
  | lsr
  | asr
  | ror
deriving DecidableEq, Repr

/-- A shifted value and the bit the shift pushed out last, if it pushed any. -/
structure Shifted where
  value : Word
  carry : Option Bool
deriving DecidableEq, Repr

namespace ShiftKind

/-- All kinds in the order of their codes. -/
def all : List ShiftKind := [lsl, lsr, asr, ror]

/-- The kind of a given code. -/
def ofField (code : BitVec 2) : ShiftKind :=
  all.get code.toFin

/-- The mnemonic of the shift. -/
def text : ShiftKind → String
  | lsl => "lsl"
  | lsr => "lsr"
  | asr => "asr"
  | ror => "ror"

/-- Thirty-two copies of the top bit. -/
def signFill (value : Word) : Word :=
  if value.msb then -1 else 0

/-- A shift by an immediate.  The amount zero stands for a right shift by 32, and for a rotation by
one bit through the carry flag. -/
def byImmediate (kind : ShiftKind) (value : Word) (amount : BitVec 5) (carry : Bool) : Shifted :=
  let n := amount.toNat
  match kind with
  | lsl => if n = 0 then ⟨value, none⟩ else ⟨value <<< n, some (value.getLsbD (32 - n))⟩
  | lsr => if n = 0 then ⟨0, some value.msb⟩ else ⟨value >>> n, some (value.getLsbD (n - 1))⟩
  | asr =>
    if n = 0 then ⟨signFill value, some value.msb⟩
    else ⟨value.sshiftRight n, some (value.getLsbD (n - 1))⟩
  | ror =>
    if n = 0 then ⟨(BitVec.ofBool carry ++ value.extractLsb' 1 31 : BitVec (1 + 31)),
      some (value.getLsbD 0)⟩
    else ⟨value.rotateRight n, some (value.getLsbD (n - 1))⟩

/-- A shift by the low byte of a register.  An amount of zero leaves value and carry alone. -/
def byRegister (kind : ShiftKind) (value amount : Word) : Shifted :=
  let n := (amount.extractLsb' 0 8).toNat
  if n = 0 then ⟨value, none⟩
  else match kind with
    | lsl =>
      if n < 32 then ⟨value <<< n, some (value.getLsbD (32 - n))⟩
      else if n = 32 then ⟨0, some (value.getLsbD 0)⟩
      else ⟨0, some false⟩
    | lsr =>
      if n < 32 then ⟨value >>> n, some (value.getLsbD (n - 1))⟩
      else if n = 32 then ⟨0, some value.msb⟩
      else ⟨0, some false⟩
    | asr =>
      if n < 32 then ⟨value.sshiftRight n, some (value.getLsbD (n - 1))⟩
      else ⟨signFill value, some value.msb⟩
    | ror =>
      if n % 32 = 0 then ⟨value, some value.msb⟩
      else ⟨value.rotateRight (n % 32), some (value.getLsbD (n % 32 - 1))⟩

end ShiftKind

/-- An eight-bit immediate rotated right by twice a four-bit amount.  Only a rotation by a positive
amount pushes a bit out. -/
def rotatedImmediate (immediate : BitVec 8) (amount : BitVec 4) : Shifted :=
  let value := (immediate.setWidth 32).rotateRight (2 * amount.toNat)
  ⟨value, if amount = 0 then none else some value.msb⟩

end Armv4t

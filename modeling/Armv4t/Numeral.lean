/-!
# Numerals

Texts of numbers in the notations the processor's messages use: a fixed number of digits in base two
or sixteen, the shortest hexadecimal text, and the immediate notation of the assembly language, in
which a number below ten is written as one decimal digit and any other in hexadecimal.
-/

namespace Armv4t.Numeral

/-- The shape of the letters among hexadecimal digits. -/
inductive LetterCase where
  | lower
  | upper
deriving DecidableEq, Repr

/-- The digit for a value below sixteen; larger values have no digit and show as `?`. -/
def digit (letters : LetterCase) (value : Nat) : Char :=
  let table := match letters with
    | .lower => "0123456789abcdef".toList
    | .upper => "0123456789ABCDEF".toList
  table.getD value '?'

/-- The last `count` digits of `value` in the given base, most significant first. -/
def digits (letters : LetterCase) (base : Nat) : Nat → Nat → List Char
  | 0, _ => []
  | count + 1, value =>
    digits letters base count (value / base) ++ [digit letters (value % base)]

/-- Exactly `count` hexadecimal digits, with capital letters. -/
def hex (count value : Nat) : String :=
  .ofList (digits .upper 16 count value)

/-- Exactly `count` hexadecimal digits, with small letters. -/
def hexLower (count value : Nat) : String :=
  .ofList (digits .lower 16 count value)

/-- Exactly `count` binary digits. -/
def binary (count value : Nat) : String :=
  .ofList (digits .lower 2 count value)

/-- A number below 2^32 in hexadecimal with capital letters and no leading zero. -/
def shortHex (value : Nat) : String :=
  .ofList ((digits .upper 16 8 value).dropWhile (· == '0'))

/-- The magnitude of an immediate: one decimal digit below ten, hexadecimal from ten on. -/
def magnitude (value : Nat) : String :=
  if value < 10 then .ofList [digit .upper value] else "0x" ++ shortHex value

/-- An immediate operand. -/
def immediate (value : Nat) : String :=
  "#" ++ magnitude value

/-- An immediate offset, with a minus sign when it is subtracted. -/
def signedImmediate (add : Bool) (value : Nat) : String :=
  "#" ++ (if add then "" else "-") ++ magnitude value

/-- An address: `0x` and eight capital hexadecimal digits. -/
def address (value : Nat) : String :=
  "0x" ++ hex 8 value

end Armv4t.Numeral

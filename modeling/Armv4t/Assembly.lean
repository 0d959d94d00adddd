import Armv4t.Numeral
import Armv4t.Register
import Armv4t.Shift

/-!
# Assembly notation

The pieces of notation that instructions of both sets share: shifts by an immediate and lists of
registers, in which three or more consecutive registers are written as a range.
-/

namespace Armv4t.Assembly

/-- A shift by an immediate behind the register it applies to.  A shift that moves nothing is not
written. -/
def immediateShift (kind : ShiftKind) (amount : BitVec 5) : String :=
  if amount = 0 then
    match kind with
    | .lsl => ""
    | .ror => ", rrx"
    | kind => ", " ++ kind.text ++ " #32"
  else ", " ++ kind.text ++ " #" ++ toString amount.toNat

/-- The maximal runs of consecutive registers in an ascending list, each by its first and last. -/
def runs : List Register → List (Register × Register)
  | [] => []
  | register :: rest =>
    match runs rest with
    | [] => [(register, register)]
    | (first, last) :: more =>
      if first.index.val = register.index.val + 1 then (register, last) :: more
      else (register, register) :: (first, last) :: more

/-- A run of registers: one, two, or the ends of a range. -/
def run (first last : Register) : String :=
  match last.index.val - first.index.val with
  | 0 => first.text
  | 1 => first.text ++ ", " ++ last.text
  | _ => first.text ++ "-" ++ last.text

/-- A list of registers in braces. -/
def registerList (registers : List Register) : String :=
  "\x7b" ++ ", ".intercalate ((runs registers).map fun (first, last) => run first last) ++ "\x7d"

end Armv4t.Assembly

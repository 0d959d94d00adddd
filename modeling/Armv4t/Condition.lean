import Armv4t.Psr

/-!
# Condition codes

Every ARM instruction and one Thumb branch carry a four-bit condition on the flags.  The codes come
in pairs of a test and its negation; the last pair is "always" and "never".
-/

namespace Armv4t

/-- A condition on the flags. -/
inductive Condition where
  | equal
  | notEqual
  | unsignedHigherOrSame
  | unsignedLower
  | negative
  | positiveOrZero
  | overflow
  | noOverflow
  | unsignedHigher
  | unsignedLowerOrSame
  | signedGreaterOrEqual
  | signedLess
  | signedGreater
  | signedLessOrEqual
  | always
  | never
deriving DecidableEq, Repr

namespace Condition

/-- All conditions in the order of their codes. -/
def all : List Condition :=
  [equal, notEqual, unsignedHigherOrSame, unsignedLower, negative, positiveOrZero, overflow,
    noOverflow, unsignedHigher, unsignedLowerOrSame, signedGreaterOrEqual, signedLess,
    signedGreater, signedLessOrEqual, always, never]

/-- The condition of a given code. -/
def ofField (code : BitVec 4) : Condition :=
  all.get code.toFin

/-- Whether the condition holds of the flags. -/
def holds (condition : Condition) (flags : Flags) : Bool :=
  match condition with
  | equal => flags.zero
  | notEqual => !flags.zero
  | unsignedHigherOrSame => flags.carry
  | unsignedLower => !flags.carry
  | negative => flags.negative
  | positiveOrZero => !flags.negative
  | overflow => flags.overflow
  | noOverflow => !flags.overflow
  | unsignedHigher => flags.carry && !flags.zero
  | unsignedLowerOrSame => !flags.carry || flags.zero
  | signedGreaterOrEqual => flags.negative == flags.overflow
  | signedLess => flags.negative != flags.overflow
  | signedGreater => !flags.zero && flags.negative == flags.overflow
  | signedLessOrEqual => flags.zero || flags.negative != flags.overflow
  | always => true
  | never => false

/-- The suffix that the assembly language writes for the condition; "always" is not written. -/
def text : Condition → String
  | equal => "eq"
  | notEqual => "ne"
  | unsignedHigherOrSame => "cs"
  | unsignedLower => "cc"
  | negative => "mi"
  | positiveOrZero => "pl"
  | overflow => "vs"
  | noOverflow => "vc"
  | unsignedHigher => "hi"
  | unsignedLowerOrSame => "ls"
  | signedGreaterOrEqual => "ge"
  | signedLess => "lt"
  | signedGreater => "gt"
  | signedLessOrEqual => "le"
  | always => ""
  | never => "nv"

end Condition

end Armv4t

import Armv4t.Mode

/-!
# Program status

A program status register holds four condition flags, two interrupt masks, the instruction set in
use and the mode.  Its word form has the flags in bits 31 to 28, the masks and the instruction set
in bits 7 to 5 and the mode in bits 4 to 0; the twenty bits between are kept as they are.  A word is
the form of a status exactly when its lowest five bits name a mode (`Psr.ofWord?_eq_some_iff`).
-/

namespace Armv4t

/-- The four condition flags. -/
structure Flags where
  negative : Bool
  zero : Bool
  carry : Bool
  overflow : Bool
deriving DecidableEq, Repr

/-- The contents of a program status register. -/
structure Psr where
  flags : Flags
  /-- Bits 27 to 8, which have no function. -/
  reserved : BitVec 20
  /-- Interrupt requests are held back. -/
  irqDisable : Bool
  /-- Fast interrupt requests are held back. -/
  fiqDisable : Bool
  /-- The instruction set being executed. -/
  instructionSet : InstructionSet
  mode : Mode
deriving DecidableEq, Repr

namespace Psr

/-- The mode field of a status word. -/
def modeField (word : Word) : BitVec 5 :=
  word.extractLsb' 0 5

/-- The word form of a status. -/
def toWord (psr : Psr) : Word :=
  BitVec.ofBool psr.flags.negative ++ BitVec.ofBool psr.flags.zero ++
    BitVec.ofBool psr.flags.carry ++ BitVec.ofBool psr.flags.overflow ++ psr.reserved ++
    BitVec.ofBool psr.irqDisable ++ BitVec.ofBool psr.fiqDisable ++
    BitVec.ofBool (psr.instructionSet == .thumb) ++ psr.mode.bits

/-- The status whose mode is given and whose other parts are read from a word. -/
def ofWordWithMode (word : Word) (mode : Mode) : Psr where
  flags :=
    { negative := word.getLsbD 31
      zero := word.getLsbD 30
      carry := word.getLsbD 29
      overflow := word.getLsbD 28 }
  reserved := word.extractLsb' 8 20
  irqDisable := word.getLsbD 7
  fiqDisable := word.getLsbD 6
  instructionSet := if word.getLsbD 5 then .thumb else .arm
  mode := mode

/-- The status that a word is the form of, if its mode field names a mode. -/
def ofWord? (word : Word) : Option Psr :=
  (Mode.ofBits? (modeField word)).map (ofWordWithMode word)

theorem toWord_ofWordWithMode {word : Word} {mode : Mode} (h : mode.bits = modeField word) :
    (ofWordWithMode word mode).toWord = word := by
  have hset : ((ofWordWithMode word mode).instructionSet == .thumb) = word.getLsbD 5 := by
    simp only [ofWordWithMode]
    cases word.getLsbD 5 <;> rfl
  unfold toWord
  rw [hset]
  simp only [ofWordWithMode, h, modeField]
  ext i hi
  simp only [BitVec.getElem_append, BitVec.getElem_extractLsb', BitVec.getElem_ofBool]
  simp only [← BitVec.getLsbD_eq_getElem]
  rcases (by omega : i < 31 ∨ i = 31) with top | rfl <;> grind

theorem ofWordWithMode_toWord (psr : Psr) : ofWordWithMode psr.toWord psr.mode = psr := by
  obtain ⟨⟨n, z, c, v⟩, reserved, i, f, set, mode⟩ := psr
  simp only [ofWordWithMode, toWord, mk.injEq, Flags.mk.injEq, BitVec.getLsbD_append]
  refine ⟨by simp, ?_, by simp, by simp, ?_, trivial⟩
  · ext k hk
    simp only [BitVec.getElem_extractLsb', BitVec.getLsbD_append]
    grind
  · cases set <;> simp

@[simp] theorem modeField_toWord (psr : Psr) : modeField psr.toWord = psr.mode.bits := by
  ext k hk
  simp only [modeField, toWord, BitVec.getElem_extractLsb', BitVec.getLsbD_append]
  grind

@[simp] theorem ofWord?_toWord (psr : Psr) : ofWord? psr.toWord = some psr := by
  simp [ofWord?, ofWordWithMode_toWord]

theorem toWord_of_ofWord? {word : Word} {psr : Psr} (h : ofWord? word = some psr) :
    psr.toWord = word := by
  obtain ⟨mode, hmode, rfl⟩ := Option.map_eq_some_iff.1 h
  exact toWord_ofWordWithMode (Mode.bits_of_ofBits? hmode)

/-- Reading a status word accepts exactly the words that writing a status produces. -/
theorem ofWord?_eq_some_iff {word : Word} {psr : Psr} :
    ofWord? word = some psr ↔ psr.toWord = word :=
  ⟨toWord_of_ofWord?, fun h => h ▸ ofWord?_toWord psr⟩

theorem ofWord?_eq_none_iff {word : Word} :
    ofWord? word = none ↔ ∀ mode : Mode, mode.bits ≠ modeField word := by
  unfold ofWord?
  rw [Option.map_eq_none_iff, Option.eq_none_iff_forall_ne_some]
  constructor
  · intro h mode hmode
    exact h mode (Mode.ofBits?_eq_some_iff.2 hmode)
  · intro h mode hmode
    exact h mode (Mode.ofBits?_eq_some_iff.1 hmode)

end Psr

end Armv4t

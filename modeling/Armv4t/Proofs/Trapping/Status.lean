import Armv4t.Config
import Armv4t.Proofs.Trapping.Datapath

/-!
# Status words on checked arithmetic

A host keeps the status as a word and reads and writes its fields by their bits.  A field of the
word form of a status is that field of the status, and writing it gives the word form of the status
with the field replaced, so that a word whose mode field names a mode stays one.
-/

namespace Armv4t

namespace Psr

/-- A word is the form of a status when it has the mode field and the other parts of the status. -/
theorem eq_toWord {word : Word} {psr : Psr} (hm : modeField word = psr.mode.bits)
    (h : ofWordWithMode word psr.mode = psr) : word = psr.toWord := by
  rw [← toWord_ofWordWithMode hm.symm, h]

end Psr

namespace Trapping

/-! ### Reading -/

/-- The mode of which a number is the mode field. -/
def modeOfBits? (bits : Word) : Option Mode :=
  Mode.all.find? fun mode => mode.bits.setWidth 32 == bits

/-- The mode that a status word names, if it names one. -/
def modeOf? (word : Word) : Checked (Option Mode) := do
  return modeOfBits? (← getBits word 0 4)

/-- The instruction set of a status word. -/
def instructionSetOf (word : Word) : Checked InstructionSet := do
  return if ← getBit word 5 then .thumb else .arm

/-- The condition flags of a status word. -/
def flagsOf (word : Word) : Checked Flags := do
  let negative ← getBit word 31
  let zero ← getBit word 30
  let carry ← getBit word 29
  let overflow ← getBit word 28
  return { negative, zero, carry, overflow }

/-- The carry flag of a status word. -/
def carryOf (word : Word) : Checked Bool :=
  getBit word 29

/-- Whether a status word holds requests on an interrupt line back. -/
def maskOf (line : InterruptLine) (word : Word) : Checked Bool :=
  match line with
  | .irq => getBit word 7
  | .fiq => getBit word 6

theorem modeOf?_eq_ok (word : Word) :
    modeOf? word = .ok (Mode.ofBits? (Psr.modeField word)) := by
  have hbits : ∀ field : BitVec 5, modeOfBits? (field.setWidth 32) = Mode.ofBits? field := by
    decide
  have hfield : getBits word 0 4 = .ok ((Psr.modeField word).setWidth 32) :=
    getBits_eq_ok (by decide) (by decide) (by decide)
  simp only [modeOf?, hfield, ok_bind, pure_eq_ok, hbits]

variable (psr : Psr)

@[simp] theorem modeOf?_toWord : modeOf? psr.toWord = .ok (some psr.mode) := by
  rw [modeOf?_eq_ok, Psr.modeField_toWord, Mode.ofBits?_bits]

@[simp] theorem instructionSetOf_toWord : instructionSetOf psr.toWord = .ok psr.instructionSet := by
  have hset : instructionSetOf psr.toWord =
      .ok (Psr.ofWordWithMode psr.toWord psr.mode).instructionSet := by
    simp [instructionSetOf, Psr.ofWordWithMode]
  rw [hset, Psr.ofWordWithMode_toWord]

@[simp] theorem flagsOf_toWord : flagsOf psr.toWord = .ok psr.flags := by
  have hflags : flagsOf psr.toWord = .ok (Psr.ofWordWithMode psr.toWord psr.mode).flags := by
    simp [flagsOf, Psr.ofWordWithMode]
  rw [hflags, Psr.ofWordWithMode_toWord]

@[simp] theorem carryOf_toWord : carryOf psr.toWord = .ok psr.flags.carry := by
  have hcarry : carryOf psr.toWord = .ok (Psr.ofWordWithMode psr.toWord psr.mode).flags.carry := by
    simp [carryOf, Psr.ofWordWithMode]
  rw [hcarry, Psr.ofWordWithMode_toWord]

@[simp] theorem maskOf_toWord (line : InterruptLine) :
    maskOf line psr.toWord = .ok (CpuM.isMasked line psr) := by
  have hmask : maskOf line psr.toWord =
      .ok (CpuM.isMasked line (Psr.ofWordWithMode psr.toWord psr.mode)) := by
    cases line <;> simp [maskOf, CpuM.isMasked, Psr.ofWordWithMode]
  rw [hmask, Psr.ofWordWithMode_toWord]

/-! ### Writing -/

/-- A status word with the flags after a result. -/
def withFlagsAfter (word : Word) (result : AluResult) : Checked Word := do
  let word ← setBit word 31 (← getBit result.value 31)
  let word ← setBit word 30 (result.value == 0)
  let word ← match result.carry with
    | some carry => setBit word 29 carry
    | none => pure word
  match result.overflow with
  | some overflow => setBit word 28 overflow
  | none => return word

/-- A status word with the flags of a 64-bit result, which clears the carry. -/
def withLongFlags (word : Word) (result : BitVec 64) : Checked Word := do
  let word ← setBit word 31 ((← shr result 63) != 0)
  let word ← setBit word 30 (result == 0)
  setBit word 29 false

/-- A status word with the bit of the instruction set replaced. -/
def withSetBit (word : Word) (set : InstructionSet) : Checked Word :=
  setBit word 5 (set == .thumb)

/-- The status word with which the handler of an exception starts. -/
def entryWord (exception : Exception) (old : Word) : Checked Word := do
  let disableFiq := exception.disablesFiq || (← getBit old 6)
  let word ← setBits old (exception.mode.bits.setWidth 32) 0 4
  let word ← setBit word 5 false
  let word ← setBit word 7 true
  setBit word 6 disableFiq

/-- The status word with which a processor starts. -/
def startWord (config : Config) : Checked Word := do
  let word ← setBit (config.mode.bits.setWidth 32) 5 (config.instructionSet == .thumb)
  let word ← setBit word 7 config.irqDisabled
  setBit word 6 config.fiqDisabled

variable {word : Word} {offset : Nat} (bit : Bool)

/-- A bit above the mode field leaves the mode field alone. -/
theorem modeField_withBit (h : 5 ≤ offset) (h' : offset < 32) :
    Psr.modeField (withBit word offset bit) = Psr.modeField word := by
  refine BitVec.eq_of_getLsbD_eq fun i hi => ?_
  simp only [Psr.modeField, BitVec.getLsbD_extractLsb', Nat.zero_add, getLsbD_withBit bit h']
  rw [if_neg (by omega)]

/-- A bit outside the part without function leaves that part alone. -/
theorem reserved_withBit (h : offset < 8 ∨ 28 ≤ offset) (h' : offset < 32) :
    (withBit word offset bit).extractLsb' 8 20 = word.extractLsb' 8 20 := by
  refine BitVec.eq_of_getLsbD_eq fun i hi => ?_
  simp only [BitVec.getLsbD_extractLsb', getLsbD_withBit bit h']
  rw [if_neg (by omega)]

/-- The status with the field that one bit of its word form holds replaced. -/
def replaced (psr : Psr) (bit : Bool) : Nat → Psr
  | 31 => { psr with flags := { psr.flags with negative := bit } }
  | 30 => { psr with flags := { psr.flags with zero := bit } }
  | 29 => { psr with flags := { psr.flags with carry := bit } }
  | 28 => { psr with flags := { psr.flags with overflow := bit } }
  | 7 => { psr with irqDisable := bit }
  | 6 => { psr with fiqDisable := bit }
  | 5 => { psr with instructionSet := if bit then .thumb else .arm }
  | _ => psr

/-- Setting a bit of the word form is replacing the field that the bit holds. -/
theorem withBit_toWord (h : offset ∈ [5, 6, 7, 28, 29, 30, 31]) :
    withBit psr.toWord offset bit = (replaced psr bit offset).toWord := by
  have hword : offset < 32 ∧ 5 ≤ offset ∧ (offset < 8 ∨ 28 ≤ offset) := by
    revert offset
    decide
  obtain ⟨hlt, hmode, hreserved⟩ := hword
  have hkeep : (replaced psr bit offset).mode = psr.mode := by
    unfold replaced
    split <;> rfl
  apply Psr.eq_toWord
  · rw [modeField_withBit bit hmode hlt, Psr.modeField_toWord, hkeep]
  · -- every field is read from a bit, which is the one that was set or one of the old word
    have hold := Psr.ofWordWithMode_toWord psr
    rw [hkeep]
    simp only [Psr.ofWordWithMode, reserved_withBit bit hreserved hlt, getLsbD_withBit bit hlt]
    simp only [List.mem_cons, List.not_mem_nil, or_false] at h
    rcases h with rfl | rfl | rfl | rfl | rfl | rfl | rfl
    all_goals
      conv_rhs => rw [← hold]
      simp [replaced, Psr.ofWordWithMode]

@[simp] theorem withFlagsAfter_toWord (result : AluResult) :
    withFlagsAfter psr.toWord result =
      .ok { psr with flags := psr.flags.after result }.toWord := by
  obtain ⟨value, carry, overflow⟩ := result
  cases carry <;> cases overflow <;>
    simp [withFlagsAfter, withBit_toWord, replaced, Flags.after]

@[simp] theorem withLongFlags_toWord (result : BitVec 64) :
    withLongFlags psr.toWord result = .ok { psr with flags := { psr.flags with
      negative := result.msb
      zero := result == 0
      carry := false } }.toWord := by
  have hsign : (result >>> 63 != 0#64) = result.msb := by
    rw [BitVec.msb_eq_decide, Bool.eq_iff_iff, bne_iff_ne, decide_eq_true_eq, ne_eq,
      ← BitVec.toNat_inj, BitVec.toNat_ushiftRight, Nat.shiftRight_eq_div_pow, BitVec.toNat_zero]
    omega
  simp [withLongFlags, hsign, withBit_toWord, replaced]

@[simp] theorem withSetBit_toWord (set : InstructionSet) :
    withSetBit psr.toWord set = .ok { psr with instructionSet := set }.toWord := by
  cases set <;> simp [withSetBit, withBit_toWord, replaced]

/-- The mode field of a word can be replaced by that of any mode. -/
theorem setBits_toWord (mode : Mode) :
    setBits psr.toWord (mode.bits.setWidth 32) 0 4 = .ok { psr with mode := mode }.toWord := by
  rw [setBits_eq_ok (by decide) (by decide) (by decide)]
  -- the low five bits are those of the mode, and the others stay
  have hbit (i : Nat) (hi : i < 32) :
      ((mode.bits.setWidth 32 <<< 0 : Word) &&& fieldOnes 32 0 4 |||
        psr.toWord &&& ~~~fieldOnes 32 0 4).getLsbD i =
        if i ≤ 4 then mode.bits.getLsbD i else psr.toWord.getLsbD i := by
    rw [BitVec.getLsbD_or, BitVec.getLsbD_and, BitVec.getLsbD_and, BitVec.getLsbD_not,
      getLsbD_fieldOnes (by decide) (by decide), BitVec.shiftLeft_zero, BitVec.getLsbD_setWidth]
    by_cases hlow : i ≤ 4 <;> simp [hlow, hi]
  generalize (mode.bits.setWidth 32 <<< 0 : Word) &&& fieldOnes 32 0 4 |||
    psr.toWord &&& ~~~fieldOnes 32 0 4 = word at hbit
  refine congrArg Except.ok (Psr.eq_toWord ?_ ?_)
  -- the word is that of the status with the new mode: its mode field is the new one
  · refine BitVec.eq_of_getLsbD_eq fun i hi => ?_
    rw [Psr.modeField, BitVec.getLsbD_extractLsb', Nat.zero_add, hbit i (by omega),
      if_pos (by omega), decide_eq_true hi, Bool.true_and]
  -- and its other fields are the old ones
  · have hold := Psr.ofWordWithMode_toWord psr
    have hreserved : word.extractLsb' 8 20 = psr.toWord.extractLsb' 8 20 := by
      refine BitVec.eq_of_getLsbD_eq fun i hi => ?_
      simp only [BitVec.getLsbD_extractLsb']
      rw [hbit (8 + i) (by omega), if_neg (by omega)]
    conv_rhs => rw [← hold]
    simp only [Psr.ofWordWithMode, hreserved]
    simp only [hbit 31 (by decide), hbit 30 (by decide), hbit 29 (by decide), hbit 28 (by decide),
      hbit 7 (by decide), hbit 6 (by decide), hbit 5 (by decide)]
    rfl

@[simp] theorem entryWord_toWord (exception : Exception) :
    entryWord exception psr.toWord = .ok { psr with
      mode := exception.mode
      instructionSet := .arm
      irqDisable := true
      fiqDisable := exception.disablesFiq || psr.fiqDisable }.toWord := by
  have hfiq : getBit psr.toWord 6 = .ok psr.fiqDisable := maskOf_toWord psr .fiq
  simp only [entryWord, hfiq, ok_bind, setBits_toWord]
  simp [withBit_toWord, replaced]

@[simp] theorem startWord_eq_ok (config : Config) :
    startWord config = .ok config.psr.toWord := by
  -- a mode field alone is the word form of a status that has everything else clear
  have hmode : ∀ mode : Mode, (mode.bits.setWidth 32 : Word) =
      (Psr.toWord ⟨⟨false, false, false, false⟩, 0, false, false, .arm, mode⟩) := by
    intro mode
    cases mode <;> decide
  cases hs : config.instructionSet <;>
    simp [startWord, hmode, withBit_toWord, replaced, Config.psr, hs]

end Trapping

end Armv4t

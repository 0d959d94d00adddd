import Armv4t.Disassembly
import Armv4t.Proofs.Trapping.Thumb

/-!
# Disassembly on a host that traps

A host words an instruction before it executes it.  It reads the fields of the opcode once more,
computes rotated immediates, offsets and branch targets, and walks through register lists to find
the runs of consecutive registers, all with checked arithmetic.  None of this traps, and the text is
that of the disassembler.
-/

namespace Armv4t.Trapping

/-! ### Register lists -/

/-- The index after the run of set bits that an index is in, with so many bits left. -/
def runEnd (list : BitVec 16) : Nat → Nat → Checked Nat
  | 0, index => return index
  | left + 1, index => do
    if ← getBit list index then
      runEnd list left (← addIndex index 1)
    else
      return index

/-- A run of registers: one, two, or the ends of a range. -/
def runText (first last : Register) : Checked String := do
  match ← subIndex last.index first.index with
  | 0 => return first.text
  | 1 => return first.text ++ ", " ++ last.text
  | _ => return first.text ++ "-" ++ last.text

/-- The texts of the runs from an index on. -/
def runTexts (list : BitVec 16) : Nat → Nat → Checked (List String)
  | 0, _ => return []
  | fuel + 1, index => do
    if 16 ≤ index then
      return []
    else if ← getBit list index then
      let first ← registerOf (.ofNat 32 index)
      let stop ← runEnd list (16 - index) index
      let last ← registerOf (← sub (.ofNat 32 stop) 1)
      return (← runText first last) :: (← runTexts list fuel stop)
    else
      runTexts list fuel (← addIndex index 1)

/-- A list of registers in braces. -/
def registerListText (list : BitVec 16) : Checked String := do
  return "\x7b" ++ ", ".intercalate (← runTexts list 16 0) ++ "\x7d"

section RegisterLists

variable (list : BitVec 16)

/-- The listed registers from an index on. -/
def registersFrom (index : Nat) : List Register :=
  (((List.finRange 16).drop index).map Register.ofIndex).filter (list.getLsbD ·.index)

theorem registersFrom_of_ge {index : Nat} (h : 16 ≤ index) : registersFrom list index = [] := by
  have hnone : (List.finRange 16).drop index = [] := List.drop_eq_nil_of_le (by simpa using h)
  rw [registersFrom, hnone]
  rfl

theorem registersFrom_of_lt {index : Nat} (h : index < 16) :
    registersFrom list index =
      if list.getLsbD index then .ofIndex ⟨index, h⟩ :: registersFrom list (index + 1)
      else registersFrom list (index + 1) := by
  have hlength : index < (List.finRange 16).length := by simpa using h
  have hbit : list.getLsbD (Register.ofIndex ⟨index, h⟩).index = list.getLsbD index := by
    rw [Register.index_ofIndex]
  rw [registersFrom, List.drop_eq_getElem_cons hlength, List.getElem_finRange, List.map_cons,
    List.filter_cons]
  simp only [Fin.cast_mk, hbit]
  rfl

/-- The listed registers from an index on have that index or a higher one. -/
theorem mem_registersFrom {index : Nat} {register : Register}
    (h : register ∈ registersFrom list index) :
    index ≤ register.index.val ∧ list.getLsbD register.index = true := by
  obtain ⟨hmem, hlists⟩ := List.mem_filter.1 h
  obtain ⟨number, hdrop, rfl⟩ := List.mem_map.1 hmem
  obtain ⟨offset, hoffset, rfl⟩ := List.mem_drop_iff_getElem.1 hdrop
  refine ⟨?_, hlists⟩
  rw [Register.index_ofIndex, List.getElem_finRange]
  exact Nat.le_add_right index offset

/-- The first run of a list starts with its first register. -/
theorem runs_cons (register : Register) (rest : List Register) :
    ∃ last more, Assembly.runs (register :: rest) = (register, last) :: more := by
  rw [Assembly.runs]
  split
  · exact ⟨register, [], rfl⟩
  · split_ifs
    · exact ⟨_, _, rfl⟩
    · exact ⟨_, _, rfl⟩

/-- A register before the runs of others is a run of its own unless the first run starts right
after it. -/
theorem runs_cons_of_gap {register : Register} {rest : List Register}
    (h : ∀ other ∈ rest, other.index.val ≠ register.index.val + 1) :
    Assembly.runs (register :: rest) = (register, register) :: Assembly.runs rest := by
  cases rest with
  | nil => rfl
  | cons other rest =>
    obtain ⟨last, more, hruns⟩ := runs_cons other rest
    have hother := h other (List.mem_cons_self ..)
    rw [Assembly.runs, hruns]
    simp only [if_neg hother]

/-- A register right before the first run of others lengthens it. -/
theorem runs_cons_of_next {register other last : Register} {rest : List Register}
    {more : List (Register × Register)} (h : Assembly.runs rest = (other, last) :: more)
    (hnext : other.index.val = register.index.val + 1) :
    Assembly.runs (register :: rest) = (register, last) :: more := by
  rw [Assembly.runs, h]
  simp only [if_pos hnext]

/-- The bits from an index up to another are set, and the bit there is not. -/
structure IsRun (index stop : Nat) : Prop where
  le : index ≤ stop
  stop_le : stop ≤ 16
  all_set : ∀ i, index ≤ i → i < stop → list.getLsbD i = true
  clear : list.getLsbD stop = false

variable {list} in
theorem IsRun.tail {index stop : Nat} (h : IsRun list index stop) (hlt : index < stop) :
    IsRun list (index + 1) stop where
  le := hlt
  stop_le := h.stop_le
  all_set := fun i hi hi' => h.all_set i (by omega) hi'
  clear := h.clear

variable {list} in
theorem IsRun.cons {index stop : Nat} (h : IsRun list (index + 1) stop)
    (hbit : list.getLsbD index = true) : IsRun list index stop where
  le := by
    have := h.le
    omega
  stop_le := h.stop_le
  all_set := fun i hi hi' => by
    by_cases hsame : i = index
    · rw [hsame, hbit]
    · exact h.all_set i (by omega) hi'
  clear := h.clear

/-- The end of the run that an index is in. -/
theorem runEnd_eq_ok (left index : Nat) (h : index + left = 16) :
    ∃ stop, runEnd list left index = .ok stop ∧ IsRun list index stop := by
  induction left generalizing index with
  | zero =>
    -- there is no bit 16, so that every run ends there at the latest
    refine ⟨index, rfl, Nat.le_refl _, by omega, fun i hi hi' => by omega, ?_⟩
    exact BitVec.getLsbD_of_ge list index (by omega)
  | succ left ih =>
    have hindex : index < 16 := by omega
    have hsum : addIndex index 1 = .ok (index + 1) :=
      addIndex_of_lt (by unfold indexLimit; omega)
    rw [runEnd, getBit_of_lt hindex, ok_bind, hsum, ok_bind]
    by_cases hbit : list.getLsbD index = true
    · obtain ⟨stop, hstop, hrun⟩ := ih (index + 1) (by omega)
      exact ⟨stop, by rw [if_pos hbit, hstop], hrun.cons hbit⟩
    · refine ⟨index, ?_, Nat.le_refl _, by omega, fun i hi hi' => by omega, ?_⟩
      · rw [if_neg hbit]
        rfl
      · exact Bool.not_eq_true _ ▸ hbit

/-- A run of set bits is the first run of the registers from there on. -/
theorem runs_registersFrom (count index : Nat) (hfirst : index < 16)
    (hlast : index + count < 16) (h : IsRun list index (index + count + 1)) :
    Assembly.runs (registersFrom list index) =
      (.ofIndex ⟨index, hfirst⟩, .ofIndex ⟨index + count, hlast⟩) ::
        Assembly.runs (registersFrom list (index + count + 1)) := by
  have hbit := h.all_set index (by omega) (by omega)
  rw [registersFrom_of_lt list hfirst, if_pos hbit]
  -- runs are built from the back, so the run without its first register comes first
  induction count generalizing index with
  | zero =>
    refine runs_cons_of_gap fun other hmem hnext => ?_
    have hlists := (mem_registersFrom list hmem).2
    rw [Register.index_ofIndex] at hnext
    rw [hnext] at hlists
    exact absurd (h.clear.symm.trans hlists) Bool.false_ne_true
  | succ count ih =>
    have hsame : index + 1 + count = index + (count + 1) := by omega
    have hbit' := h.all_set (index + 1) (by omega) (by omega)
    have hruns := ih (index + 1) (by omega) (by omega)
      (by rw [hsame]; exact h.tail (by omega)) hbit'
    simp only [hsame] at hruns
    rw [registersFrom_of_lt list (show index + 1 < 16 by omega), if_pos hbit']
    refine runs_cons_of_next hruns ?_
    rw [Register.index_ofIndex, Register.index_ofIndex]

theorem runText_eq_ok {first last : Register} (h : first.index.val ≤ last.index.val) :
    runText first last = .ok (Assembly.run first last) := by
  rw [runText, subIndex_of_le h, ok_bind, Assembly.run]
  generalize last.index.val - first.index.val = distance
  match distance with
  | 0 => rfl
  | 1 => rfl
  | _ + 2 => rfl

/-- The number before a number of a register. -/
theorem sub_one_ofNat {number : Nat} (h : number < 16) :
    sub (.ofNat 32 (number + 1)) (1 : Word) = .ok (.ofNat 32 number) := by
  have hone : (1 : Word).toNat = 1 := rfl
  have hnumber : (BitVec.ofNat 32 (number + 1)).toNat = number + 1 := by
    rw [BitVec.toNat_ofNat]
    omega
  have hle : (1 : Word).toNat ≤ (BitVec.ofNat 32 (number + 1)).toNat := by
    rw [hone, hnumber]
    omega
  rw [sub_eq_ok hle]
  refine congrArg Except.ok (BitVec.eq_of_toNat_eq ?_)
  rw [BitVec.toNat_sub_of_le hle, hnumber, hone, BitVec.toNat_ofNat]
  omega

/-- The walk through the indices finds the runs of the listed registers. -/
theorem runTexts_eq_ok (fuel index : Nat) (h : 16 ≤ index + fuel) :
    runTexts list fuel index =
      .ok ((Assembly.runs (registersFrom list index)).map fun (first, last) =>
        Assembly.run first last) := by
  have hregister (number : Nat) (hnumber : number < 16) :
      registerOf (.ofNat 32 number) = .ok (.ofIndex ⟨number, hnumber⟩) :=
    registerOf_number ⟨number, hnumber⟩
  induction fuel generalizing index with
  | zero =>
    have hnone : registersFrom list index = [] := registersFrom_of_ge list h
    rw [hnone]
    rfl
  | succ fuel ih =>
    by_cases hend : 16 ≤ index
    · rw [runTexts, if_pos hend, registersFrom_of_ge list hend]
      rfl
    have hindex : index < 16 := by omega
    rw [runTexts, if_neg hend, getBit_of_lt hindex, ok_bind]
    by_cases hbit : list.getLsbD index = true
    · obtain ⟨stop, hstop, hrun⟩ := runEnd_eq_ok list (16 - index) index (by omega)
      -- the run has at least the register at its start, so the walk goes on behind it
      have hlt : index < stop := by
        by_contra hge
        have hsame : stop = index := Nat.le_antisymm (by omega) hrun.le
        exact absurd (hrun.clear.symm.trans (hsame ▸ hbit)) Bool.false_ne_true
      obtain ⟨count, rfl⟩ : ∃ count, stop = index + count + 1 := ⟨stop - index - 1, by omega⟩
      have hlast : index + count < 16 := by
        have := hrun.stop_le
        omega
      have hsub := sub_one_ofNat hlast
      have htext : runText (.ofIndex ⟨index, hindex⟩) (.ofIndex ⟨index + count, hlast⟩) = .ok _ :=
        runText_eq_ok (by simp only [Register.index_ofIndex, Nat.le_add_right])
      rw [if_pos hbit, hregister index hindex, ok_bind, hstop, ok_bind, hsub, ok_bind,
        hregister _ hlast, ok_bind, htext, ok_bind, ih _ (by omega), ok_bind,
        runs_registersFrom list count index hindex hlast hrun]
      rfl
    · have hsum : addIndex index 1 = .ok (index + 1) :=
        addIndex_of_lt (by unfold indexLimit; omega)
      rw [if_neg hbit, hsum, ok_bind, ih _ (by omega), registersFrom_of_lt list hindex, if_neg hbit]

theorem registerListText_eq_ok (transfer : BlockTransfer) :
    registerListText transfer.list = .ok (Assembly.registerList transfer.registers) := by
  have hall : transfer.registers = registersFrom transfer.list 0 := rfl
  rw [registerListText, runTexts_eq_ok transfer.list 16 0 (by decide), hall]
  rfl

end RegisterLists

/-! ### Reading ARM opcodes -/

/-- The bits of an opcode from `first` to `last`, which are `n` bits. -/
def fieldOf {w : Nat} (n : Nat) (opcode : BitVec w) (first last : Nat) : Checked (BitVec n) := do
  return (← getBits opcode first last).setWidth n

theorem fieldOf_eq_ok {w n : Nat} {opcode : BitVec w} {first last : Nat}
    (h : first + n = last + 1 ∧ 0 < n ∧ last < w ∧ w ≤ 64) :
    fieldOf n opcode first last = .ok (opcode.extractLsb' first n) := by
  have hle : n ≤ w := by omega
  rw [fieldOf, getBits_field opcode first last n h, ok_bind, pure_eq_ok,
    BitVec.setWidth_setWidth_of_le _ hle, BitVec.setWidth_eq]

/-- The kind of an opcode, found without the table. -/
def armKind (opcode : Word) : Checked ArmKind := do
  kindOfIndex (.ofNat 32 (← armIndex opcode))

/-- The operand that passes through the shifter. -/
def readShifterOperand (opcode : Word) : Checked ShifterOperand := do
  if ← getBit opcode 25 then
    return .immediate (← fieldOf 8 opcode 0 7) (← fieldOf 4 opcode 8 11)
  else
    let source ← armRegister opcode 0
    let kind := shiftKindOf (← getBits opcode 5 6)
    if ← getBit opcode 4 then return .byRegister source kind (← armRegister opcode 8)
    else return .byImmediate source kind (← fieldOf 5 opcode 7 11)

/-- The value of a status write. -/
def readStatusSource (opcode : Word) : Checked StatusSource := do
  if ← getBit opcode 25 then
    return .immediate (← fieldOf 8 opcode 0 7) (← fieldOf 4 opcode 8 11)
  else
    return .register (← armRegister opcode 0)

/-- The indexing of a transfer. -/
def readIndexing (opcode : Word) (mayBeUnprivileged : Bool) : Checked Indexing := do
  if ← getBit opcode 24 then return .pre (← getBit opcode 21)
  else return .post (mayBeUnprivileged && (← getBit opcode 21))

/-- The access of a halfword or signed transfer. -/
def readHalfwordAccess (opcode : Word) : Checked Access := do
  if ← getBit opcode 20 then return .load (armHalfwordFormat (← getBits opcode 5 6))
  else return .store .halfword

/-- The offset of a halfword or signed transfer. -/
def readHalfwordOffset (opcode : Word) : Checked Offset := do
  if ← getBit opcode 22 then
    let high ← shl (← getBits opcode 8 11) 4
    return .immediate ((high ||| (← getBits opcode 0 3)).setWidth 12)
  else
    return .register (← armRegister opcode 0) .lsl 0

/-- The offset of a transfer of a word or an unsigned byte. -/
def readOffset (opcode : Word) : Checked Offset := do
  if ← getBit opcode 25 then
    let kind := shiftKindOf (← getBits opcode 5 6)
    return .register (← armRegister opcode 0) kind (← fieldOf 5 opcode 7 11)
  else
    return .immediate (← fieldOf 12 opcode 0 11)

/-- A single transfer of an access at an offset. -/
def readTransfer (opcode : Word) (access : Access) (offset : Offset) (mayBeUnprivileged : Bool) :
    Checked SingleTransfer := do
  return {
    access
    data := ← armRegister opcode 12
    base := ← armRegister opcode 16
    offset
    up := ← getBit opcode 23
    indexing := ← readIndexing opcode mayBeUnprivileged }

/-- The register added in a multiplication, if one is. -/
def readAddend (opcode : Word) : Checked (Option Register) := do
  if ← getBit opcode 21 then return some (← armRegister opcode 12) else return none

/-- The instruction of an opcode of a given kind. -/
def readArm (opcode : Word) : ArmKind → Checked (Option ArmInstruction)
  | .dataProcessing => do
    return some (.dataProcessing {
      operation := aluOperationOf (← getBits opcode 21 24)
      setFlags := ← getBit opcode 20
      destination := ← armRegister opcode 12
      first := ← armRegister opcode 16
      second := ← readShifterOperand opcode })
  | .readStatus => do
    return some (.readStatus (← getBit opcode 22) (← armRegister opcode 12))
  | .writeStatus => do
    return some (.writeStatus {
      saved := ← getBit opcode 22
      fields := ← fieldOf 4 opcode 16 19
      source := ← readStatusSource opcode })
  | .multiply => do
    return some (.multiply {
      destination := ← armRegister opcode 16
      multiplicand := ← armRegister opcode 0
      multiplier := ← armRegister opcode 8
      addend := ← readAddend opcode
      setFlags := ← getBit opcode 20 })
  | .multiplyLong => do
    return some (.multiplyLong {
      destinationHigh := ← armRegister opcode 16
      destinationLow := ← armRegister opcode 12
      multiplicand := ← armRegister opcode 0
      multiplier := ← armRegister opcode 8
      signed := ← getBit opcode 22
      accumulate := ← getBit opcode 21
      setFlags := ← getBit opcode 20 })
  | .swap => do
    return some (.swap {
      byte := ← getBit opcode 22
      base := ← armRegister opcode 16
      destination := ← armRegister opcode 12
      source := ← armRegister opcode 0 })
  | .branchExchange => do
    return some (.branchExchange (← armRegister opcode 0))
  | .halfwordTransfer => do
    return some (.singleTransfer (← readTransfer opcode (← readHalfwordAccess opcode)
      (← readHalfwordOffset opcode) false))
  | .singleTransfer => do
    let load ← getBit opcode 20
    let access : Access := if ← getBit opcode 22 then .ofByte load else .ofWord load
    return some (.singleTransfer (← readTransfer opcode access (← readOffset opcode) true))
  | .blockTransfer => do
    return some (.blockTransfer {
      load := ← getBit opcode 20
      base := ← armRegister opcode 16
      list := ← fieldOf 16 opcode 0 15
      up := ← getBit opcode 23
      pre := ← getBit opcode 24
      writeBack := ← getBit opcode 21
      mark := ← getBit opcode 22 })
  | .branch => do
    return some (.branch (← getBit opcode 24) (← fieldOf 24 opcode 0 23))
  | .softwareInterrupt => do
    return some (.softwareInterrupt (← fieldOf 24 opcode 0 23))
  | .undefined => return none

section ArmFields

variable (opcode : Word)

theorem armKind_eq_ok : armKind opcode = .ok (ArmKind.ofOpcode opcode) := by
  have hword : (.ofNat 32 (ArmKind.index opcode).toNat : Word) =
      (ArmKind.index opcode).setWidth 32 := by
    refine BitVec.eq_of_toNat_eq ?_
    rw [BitVec.toNat_ofNat, BitVec.toNat_setWidth]
  rw [armKind, armIndex_eq_ok, ok_bind, hword, kindOfIndex_eq_ok]
  rfl

theorem readShifterOperand_eq_ok :
    readShifterOperand opcode = .ok (ArmInstruction.shifterOperand opcode) := by
  have hkind := getBits_field opcode 5 6 2 (by decide)
  simp (disch := decide) only [readShifterOperand, ArmInstruction.shifterOperand, getBit_of_lt,
    armRegister_of_lt, fieldOf_eq_ok, hkind, ok_bind, pure_eq_ok, shiftKindOf_field]
  cases opcode.getLsbD 25 <;> cases opcode.getLsbD 4 <;> rfl

theorem readStatusSource_eq_ok :
    readStatusSource opcode = .ok (ArmInstruction.ofStatusWrite opcode).source := by
  simp (disch := decide) only [readStatusSource, ArmInstruction.ofStatusWrite, getBit_of_lt,
    armRegister_of_lt, fieldOf_eq_ok, ok_bind, pure_eq_ok]
  cases opcode.getLsbD 25 <;> rfl

theorem readIndexing_eq_ok (mayBeUnprivileged : Bool) :
    readIndexing opcode mayBeUnprivileged =
      .ok (ArmInstruction.indexing opcode mayBeUnprivileged) := by
  simp (disch := decide) only [readIndexing, ArmInstruction.indexing, getBit_of_lt, ok_bind,
    pure_eq_ok]
  cases opcode.getLsbD 24 <;> rfl

theorem readHalfwordAccess_eq_ok (h : ArmKind.ofOpcode opcode = .halfwordTransfer) :
    readHalfwordAccess opcode = .ok (ArmInstruction.halfwordAccess opcode) := by
  have hcode := getBits_field opcode 5 6 2 (by decide)
  have haccess := ofAccess_halfwordAccess opcode h
  simp (disch := decide) only [readHalfwordAccess, hcode, getBit_of_lt, ok_bind, pure_eq_ok]
  -- a store looks at the load bit only
  cases hload : opcode.getLsbD 20 with
  | false =>
    unfold ArmInstruction.halfwordAccess
    rw [hload]
    rfl
  | true =>
    rw [hload] at haccess
    cases hsame : ArmInstruction.halfwordAccess opcode with
    | load format =>
      rw [hsame] at haccess
      have hformat : format = armHalfwordFormat _ := congrArg Prod.snd haccess
      rw [hformat]
      rfl
    | store width =>
      rw [hsame] at haccess
      -- with the load bit set the access is no store
      exact absurd (congrArg Prod.fst haccess) Bool.false_ne_true

theorem readHalfwordOffset_eq_ok :
    readHalfwordOffset opcode = .ok (ArmInstruction.ofHalfwordTransfer opcode).offset := by
  have hhigh := getBits_field opcode 8 11 4 (by decide)
  have hlow := getBits_field opcode 0 3 4 (by decide)
  have hshift : shl ((opcode.extractLsb' 8 4).setWidth 32 : Word) 4 = .ok _ :=
    shl_of_lt (by decide)
  have happend : ∀ high low : BitVec 4,
      ((high.setWidth 32 : Word) <<< 4 ||| low.setWidth 32).setWidth 12 =
        ((high ++ low : BitVec 8).setWidth 12) := by
    decide
  simp (disch := decide) only [readHalfwordOffset, ArmInstruction.ofHalfwordTransfer, getBit_of_lt,
    armRegister_of_lt, hhigh, hlow, hshift, happend, ok_bind, pure_eq_ok]
  cases opcode.getLsbD 22 <;> rfl

theorem readAddend_eq_ok : readAddend opcode = .ok (ArmInstruction.ofMultiply opcode).addend := by
  simp (disch := decide) only [readAddend, ArmInstruction.ofMultiply, getBit_of_lt,
    armRegister_of_lt, ok_bind, pure_eq_ok]
  cases opcode.getLsbD 21 <;> rfl

theorem readOffset_eq_ok :
    readOffset opcode = .ok (ArmInstruction.ofSingleTransfer opcode).offset := by
  have hkind := getBits_field opcode 5 6 2 (by decide)
  simp (disch := decide) only [readOffset, ArmInstruction.ofSingleTransfer, getBit_of_lt,
    armRegister_of_lt, fieldOf_eq_ok, hkind, ok_bind, pure_eq_ok, shiftKindOf_field]
  cases opcode.getLsbD 25 <;> rfl

theorem readTransfer_eq_ok (access : Access) (offset : Offset) (mayBeUnprivileged : Bool) :
    readTransfer opcode access offset mayBeUnprivileged =
      .ok {
        access
        data := ArmInstruction.registerAt opcode 12
        base := ArmInstruction.registerAt opcode 16
        offset
        up := opcode.getLsbD 23
        indexing := ArmInstruction.indexing opcode mayBeUnprivileged } := by
  simp (disch := decide) only [readTransfer, readIndexing_eq_ok, getBit_of_lt, armRegister_of_lt,
    ok_bind, pure_eq_ok]

/-- The host reads the instruction of an opcode. -/
theorem readArm_eq_ok :
    readArm opcode (ArmKind.ofOpcode opcode) = .ok (ArmInstruction.ofOpcode? opcode) := by
  have hoperation := getBits_field opcode 21 24 4 (by decide)
  unfold ArmInstruction.ofOpcode?
  cases hkind : ArmKind.ofOpcode opcode
  -- the reader of the access is right for this kind only, so that the kind goes with it
  case halfwordTransfer =>
    simp only [readArm, readHalfwordAccess_eq_ok opcode hkind, readHalfwordOffset_eq_ok,
      readTransfer_eq_ok, ok_bind, pure_eq_ok]
    rfl
  -- in these the fields stand for themselves
  case readStatus | branchExchange | branch | softwareInterrupt | undefined =>
    simp (disch := decide) only [readArm, getBit_of_lt, armRegister_of_lt, fieldOf_eq_ok, ok_bind,
      pure_eq_ok]
  all_goals
    simp (disch := decide) only [readArm, getBit_of_lt, armRegister_of_lt, fieldOf_eq_ok, ok_bind,
      pure_eq_ok, hoperation, aluOperationOf_field, readShifterOperand_eq_ok, readAddend_eq_ok,
      readStatusSource_eq_ok, readOffset_eq_ok, readTransfer_eq_ok]
    rfl

end ArmFields

/-! ### Wording ARM instructions -/

/-- A rotated immediate. -/
def rotatedText (value : BitVec 8) (rotation : BitVec 4) : Checked String := do
  let rotated ← rotateImmediate (value.setWidth 32) (rotation.setWidth 32)
  return Numeral.immediate rotated.value.toNat

/-- The operand that passes through the shifter. -/
def shifterText : ShifterOperand → Checked String
  | .immediate value rotation => rotatedText value rotation
  | operand => return operand.text

/-- The value of a status write. -/
def statusSourceText : StatusSource → Checked String
  | .immediate value rotation => rotatedText value rotation
  | source => return source.text

/-- The distance of a branch from the program counter. -/
def armDistance (offset : BitVec 24) : Checked Word := do
  signExtend (← shl (offset.setWidth 32 : Word) 2) 26

/-- The line of assembly language for an instruction fetched from an address.  The wording is that
of the disassembler, with what it computes computed on the host. -/
def armWording (condition : Condition) (address : Word) : ArmInstruction → Checked String
  | .dataProcessing instruction => do
    let operation := instruction.operation
    let second ← shifterText instruction.second
    return operation.text ++ flagMark (instruction.setFlags && !operation.isTest) ++
      condition.text ++ " " ++
      (if operation.isTest then "" else instruction.destination.text ++ ", ") ++
      (if operation.isMove then "" else instruction.first.text ++ ", ") ++ second
  | .writeStatus write => do
    let source ← statusSourceText write.source
    return "msr" ++ condition.text ++ " " ++ statusName write.saved ++
      (if write.fields = 0 then "" else "_" ++ write.fieldLetters) ++ ", " ++ source
  | .blockTransfer transfer => do
    let list ← registerListText transfer.list
    return (if transfer.load then "ldm" else "stm") ++ transfer.modeText ++ condition.text ++ " " ++
      transfer.base.text ++ (if transfer.writeBack then "!" else "") ++ ", " ++ list ++
      (if transfer.mark then "^" else "")
  | .branch link offset => do
    let target := address + 8 + (← armDistance offset)
    return "b" ++ (if link then "l" else "") ++ condition.text ++ " " ++
      Numeral.address target.toNat
  | instruction => return instruction.text condition address

/-- The text of an ARM opcode fetched from an address. -/
def armText (opcode address : Word) : Checked String := do
  let condition := conditionOf (← shr opcode 28)
  match ← readArm opcode (← armKind opcode) with
  | some instruction => armWording condition address instruction
  | none => return "undefined " ++ Numeral.address opcode.toNat

section ArmTexts

variable (opcode address : Word)

theorem rotatedText_eq_ok (value : BitVec 8) (rotation : BitVec 4) :
    rotatedText value rotation =
      .ok (Numeral.immediate (rotatedImmediate value rotation).value.toNat) := by
  rw [rotatedText, rotateImmediate_field]
  rfl

theorem shifterText_eq_ok (operand : ShifterOperand) : shifterText operand = .ok operand.text := by
  cases operand with
  | immediate value rotation => exact rotatedText_eq_ok value rotation
  | byImmediate source kind amount => rfl
  | byRegister source kind amount => rfl

theorem statusSourceText_eq_ok (source : StatusSource) :
    statusSourceText source = .ok source.text := by
  cases source with
  | immediate value rotation => exact rotatedText_eq_ok value rotation
  | register source => rfl

theorem armDistance_eq_ok (offset : BitVec 24) :
    armDistance offset = .ok (ArmInstruction.branchDistance offset) := by
  rw [armDistance, shl_of_lt (by decide), ok_bind]
  exact signExtend_shl_field offset 2 (by decide) (by decide)

theorem armWording_eq_ok (condition : Condition) (instruction : ArmInstruction) :
    armWording condition address instruction = .ok (instruction.text condition address) := by
  cases instruction with
  | dataProcessing instruction => rw [armWording, shifterText_eq_ok]; rfl
  | writeStatus write => rw [armWording, statusSourceText_eq_ok]; rfl
  | blockTransfer transfer => rw [armWording, registerListText_eq_ok]; rfl
  | branch link offset =>
    simp only [armWording, armDistance_eq_ok, ok_bind, pure_eq_ok, ArmInstruction.text,
      ArmInstruction.branchTarget]
  | _ => rfl

/-- The condition of an opcode, shifted down to the lowest bits. -/
theorem conditionOf_shifted : conditionOf (opcode >>> 28) = ArmInstruction.condition opcode := by
  have hfield : opcode >>> 28 = (opcode.extractLsb' 28 4).setWidth 32 := by
    refine BitVec.eq_of_getLsbD_eq fun i hi => ?_
    rw [BitVec.getLsbD_ushiftRight, BitVec.getLsbD_setWidth, BitVec.getLsbD_extractLsb',
      decide_eq_true hi, Bool.true_and]
    by_cases hlow : i < 4
    · rw [decide_eq_true hlow, Bool.true_and]
    · rw [decide_eq_false hlow, Bool.false_and, BitVec.getLsbD_of_ge _ _ (by omega)]
  rw [hfield, conditionOf_field]
  rfl

/-- Wording an ARM opcode does not trap, and gives the text of the disassembler. -/
theorem armText_eq_ok : armText opcode address = .ok (disassembleArm opcode address) := by
  have hshift : shr opcode 28 = .ok (opcode >>> 28) := shr_of_lt (by decide)
  simp only [armText, hshift, ok_bind, armKind_eq_ok, readArm_eq_ok, conditionOf_shifted,
    disassembleArm]
  cases ArmInstruction.ofOpcode? opcode with
  | none => rfl
  | some instruction => exact armWording_eq_ok address _ instruction

end ArmTexts

/-! ### Wording Thumb instructions -/

/-- An operand that counts words. -/
def thumbWordText (opcode : Halfword) : Checked String := do
  return Numeral.immediate (← shl (← thumbField opcode 0 7) 2).toNat

/-- The second operand of an addition or subtraction. -/
def thumbSmallText (opcode : Halfword) : Checked String := do
  if ← getBit opcode 10 then return Numeral.immediate (← thumbField opcode 6 8).toNat
  else return (← thumbRegister opcode 6).text

/-- An operation between any two registers. -/
def thumbHighText (opcode : Halfword) : Checked String := do
  let destination ← highRegister opcode 0 7
  let source ← highRegister opcode 3 6
  match (← getBits opcode 8 9).toNat with
  | 0b00 => return "add " ++ destination.text ++ ", " ++ source.text
  | 0b01 => return "cmp " ++ destination.text ++ ", " ++ source.text
  | 0b10 => return "mov " ++ destination.text ++ ", " ++ source.text
  | _ => return "bx " ++ source.text

/-- A transfer of an access at an offset in a register. -/
def thumbOffsetText (opcode : Halfword) (access : Access) : Checked String := do
  return access.text ++ " " ++ (← thumbRegister opcode 0).text ++ ", " ++
    ThumbInstruction.addressText (← thumbRegister opcode 3).text (← thumbRegister opcode 6).text

/-- A transfer of an access at an immediate offset. -/
def thumbImmediateText (opcode : Halfword) (access : Access) (offset : Word) : Checked String := do
  return access.text ++ " " ++ (← thumbRegister opcode 0).text ++ ", " ++
    ThumbInstruction.addressText (← thumbRegister opcode 3).text (Numeral.immediate offset.toNat)

/-- A push or a pop. -/
def thumbPushPopText (opcode : Halfword) : Checked String := do
  let extra ← getBit opcode 8
  let list ← getBits opcode 0 7
  if ← getBit opcode 11 then
    return "pop " ++ (← registerListText (← setBit list 15 extra))
  else
    return "push " ++ (← registerListText (← setBit list 14 extra))

/-- The text of the target of a branch. -/
def thumbTargetText (address distance : Word) : String :=
  Numeral.address (address + 4 + distance).toNat

/-- Either half of a call. -/
def thumbLongText (opcode : Halfword) (address : Word) : Checked String := do
  if ← getBit opcode 11 then
    return "bl_2 " ++ Numeral.immediate (← shl (← thumbField opcode 0 10) 1).toNat
  else
    let high ← shl (← signExtend (← getBits opcode 0 10) 11) 12
    return "bl_1 " ++ thumbTargetText address high

/-- The line of assembly language for an opcode of a given format. -/
def thumbWording (opcode : Halfword) (address : Word) : ThumbKind → Checked String
  | .shiftedMove => do
    let kind := shiftKindOf (← thumbField opcode 11 12)
    let amount ← fieldOf 5 opcode 6 10
    return kind.text ++ " " ++ (← thumbRegister opcode 0).text ++ ", " ++
      (← thumbRegister opcode 3).text ++ ", #" ++
      toString (ThumbInstruction.shiftAmount kind amount)
  | .addSubtract => do
    let name := if ← getBit opcode 9 then "sub" else "add"
    return name ++ " " ++ (← thumbRegister opcode 0).text ++ ", " ++
      (← thumbRegister opcode 3).text ++ ", " ++ (← thumbSmallText opcode)
  | .immediate => do
    let operation := thumbImmediateOperation (← getBits opcode 11 12)
    return operation.text ++ " " ++ (← thumbRegister opcode 8).text ++ ", " ++
      Numeral.immediate (← thumbField opcode 0 7).toNat
  | .alu => do
    let code ← getBits opcode 6 9
    return (thumbAluOf code (thumbAluKindOf code.toNat)).text ++ " " ++
      (← thumbRegister opcode 0).text ++ ", " ++ (← thumbRegister opcode 3).text
  | .highRegister => thumbHighText opcode
  | .pcRelativeLoad => do
    return "ldr " ++ (← thumbRegister opcode 8).text ++ ", " ++
      ThumbInstruction.addressText "pc" (← thumbWordText opcode)
  | .registerOffset => do
    let load ← getBit opcode 11
    thumbOffsetText opcode (if ← getBit opcode 10 then .ofByte load else .ofWord load)
  | .signExtended => do
    let sign ← getBit opcode 10
    let half ← getBit opcode 11
    thumbOffsetText opcode (ThumbInstruction.signExtendedAccess half sign)
  | .immediateOffset => do
    let load ← getBit opcode 11
    if ← getBit opcode 12 then
      thumbImmediateText opcode (.ofByte load) (← thumbField opcode 6 10)
    else
      thumbImmediateText opcode (.ofWord load) (← shl (← thumbField opcode 6 10) 2)
  | .halfword => do
    let load ← getBit opcode 11
    thumbImmediateText opcode (.ofHalfword load) (← shl (← thumbField opcode 6 10) 1)
  | .spRelative => do
    let load ← getBit opcode 11
    return (Access.ofWord load).text ++ " " ++ (← thumbRegister opcode 8).text ++ ", " ++
      ThumbInstruction.addressText "sp" (← thumbWordText opcode)
  | .loadAddress => do
    let base := if ← getBit opcode 11 then "sp" else "pc"
    return "add " ++ (← thumbRegister opcode 8).text ++ ", " ++ base ++ ", " ++
      (← thumbWordText opcode)
  | .adjustStack => do
    let subtract ← getBit opcode 7
    let distance ← shl (← thumbField opcode 0 6) 2
    return "add sp, " ++ Numeral.signedImmediate (!subtract) distance.toNat
  | .pushPop => thumbPushPopText opcode
  | .multiple => do
    let name := if ← getBit opcode 11 then "ldmia" else "stmia"
    return name ++ " " ++ (← thumbRegister opcode 8).text ++ "!, " ++
      (← registerListText (← getBits opcode 0 7))
  | .conditionalBranch => do
    let condition := conditionOf (← thumbField opcode 8 11)
    let distance ← signExtend (← shl (← thumbField opcode 0 7) 1) 9
    return "b" ++ condition.text ++ " " ++ thumbTargetText address distance
  | .softwareInterrupt => do
    return "swi " ++ Numeral.immediate (← thumbField opcode 0 7).toNat
  | .branch => do
    let distance ← signExtend (← shl (← thumbField opcode 0 10) 1) 12
    return "b " ++ thumbTargetText address distance
  | .longBranch => thumbLongText opcode address
  | .undefined => return "undefined 0x" ++ Numeral.hex 4 opcode.toNat

/-- The text of a Thumb opcode fetched from an address. -/
def thumbText (opcode : Halfword) (address : Word) : Checked String := do
  thumbWording opcode address (.ofHighByte ((← shr opcode 8).setWidth 8))

section ThumbTexts

variable (opcode : Halfword) (address : Word)

/-- A widened number is the number. -/
theorem toNat_setWidth_word {n : Nat} (field : BitVec n) (h : n ≤ 32) :
    (field.setWidth 32).toNat = field.toNat :=
  BitVec.toNat_setWidth_of_le h

theorem thumbWordText_eq_ok :
    thumbWordText opcode = .ok (ThumbInstruction.wordOffsetText (opcode.extractLsb' 0 8)) := by
  have hfield := thumbField_eq_ok opcode 0 7 8 (by decide)
  rw [thumbWordText, hfield, ok_bind, shl_wordOffset, ok_bind, toNat_setWidth_word _ (by decide)]
  rfl

theorem thumbSmallText_eq_ok :
    thumbSmallText opcode = .ok (SmallOperand.text
      (if opcode.getLsbD 10 then .immediate (opcode.extractLsb' 6 3)
        else .register (ThumbInstruction.lowAt opcode 6))) := by
  have hvalue := thumbField_eq_ok opcode 6 8 3 (by decide)
  simp (disch := decide) only [thumbSmallText, getBit_of_lt, thumbRegister_of_lt, hvalue, ok_bind,
    pure_eq_ok, toNat_setWidth_word]
  cases opcode.getLsbD 10 <;> rfl

theorem thumbHighText_eq_ok :
    thumbHighText opcode = .ok (ThumbInstruction.text
      (.highRegister (ThumbInstruction.highOperation (opcode.extractLsb' 8 2))
        (ThumbInstruction.registerAt opcode 3 (opcode.getLsbD 6))
        (ThumbInstruction.registerAt opcode 0 (opcode.getLsbD 7))) address) := by
  have hcode := getBits_field opcode 8 9 2 (by decide)
  have hdestination := highRegister_eq_ok opcode 0 7 (by decide)
  have hsource := highRegister_eq_ok opcode 3 6 (by decide)
  simp only [thumbHighText, hcode, hdestination, hsource, ok_bind, pure_eq_ok]
  obtain ⟨hnumber, hoperation⟩ | ⟨hnumber, hoperation⟩ | ⟨hnumber, hoperation⟩ |
    ⟨hnumber, hoperation⟩ := highOperation_eq (opcode.extractLsb' 8 2)
  all_goals
    rw [hnumber, hoperation]
    rfl

theorem thumbOffsetText_eq_ok (access : Access) :
    thumbOffsetText opcode access = .ok (ThumbInstruction.text
      (.registerOffset access (ThumbInstruction.lowAt opcode 0) (ThumbInstruction.lowAt opcode 3)
        (ThumbInstruction.lowAt opcode 6)) address) := by
  simp (disch := decide) only [thumbOffsetText, thumbRegister_of_lt, ok_bind, pure_eq_ok]
  rfl

/-- An immediate offset is worded as the number of bytes. -/
theorem thumbImmediateText_eq_ok (width : Width) (load : Bool) (field : BitVec 5) :
    thumbImmediateText opcode (ThumbInstruction.immediateAccess width load)
        ((ThumbInstruction.scaledOffset width field).setWidth 32) =
      .ok (ThumbInstruction.text (.immediateOffset width load (ThumbInstruction.lowAt opcode 0)
        (ThumbInstruction.lowAt opcode 3) field) address) := by
  simp (disch := decide) only [thumbImmediateText, thumbRegister_of_lt, ok_bind, pure_eq_ok,
    toNat_setWidth_word]
  rfl

theorem thumbPushPopText_eq_ok :
    thumbPushPopText opcode = .ok (ThumbInstruction.text
      (if opcode.getLsbD 11 then .pop (opcode.getLsbD 8) (opcode.extractLsb' 0 8)
        else .push (opcode.getLsbD 8) (opcode.extractLsb' 0 8)) address) := by
  have hlist := getBits_field opcode 0 7 8 (by decide)
  simp (disch := decide) only [thumbPushPopText, getBit_of_lt, hlist, setBit_popList,
    setBit_pushList, registerListText_eq_ok, ok_bind, pure_eq_ok]
  cases opcode.getLsbD 11 <;> rfl

theorem thumbLongText_eq_ok :
    thumbLongText opcode address = .ok (ThumbInstruction.text
      (if opcode.getLsbD 11 then .callSecond (opcode.extractLsb' 0 11)
        else .callFirst (opcode.extractLsb' 0 11)) address) := by
  have hfield := thumbField_eq_ok opcode 0 10 11 (by decide)
  have hbits := getBits_field opcode 0 10 11 (by decide)
  have hlow : shl ((opcode.extractLsb' 0 11).setWidth 32 : Word) 1 =
      .ok (ThumbInstruction.callLow (opcode.extractLsb' 0 11)) := by
    rw [shl_of_lt (by decide), shl_field]
    rfl
  rw [thumbLongText, getBit_of_lt (by decide), ok_bind]
  cases opcode.getLsbD 11
  -- the first half is printed with its target, the second with its distance
  · rw [if_neg Bool.false_ne_true, hbits, ok_bind, ← bind_assoc, shl_callHigh]
    rfl
  · rw [if_pos rfl, hfield, ok_bind, hlow]
    rfl

theorem thumbWording_conditionalBranch :
    thumbWording opcode address .conditionalBranch = .ok (ThumbInstruction.text
      (.conditionalBranch (.ofField (opcode.extractLsb' 8 4)) (opcode.extractLsb' 0 8)) address)
      := by
  have hcondition := thumbField_eq_ok opcode 8 11 4 (by decide)
  have hfield := thumbField_eq_ok opcode 0 7 8 (by decide)
  have hdistance : signExtend ((opcode.extractLsb' 0 8).setWidth 32 <<< 1) 9 =
      .ok (ThumbInstruction.conditionalDistance (opcode.extractLsb' 0 8)) :=
    signExtend_shl_field _ 1 (by decide) (by decide)
  have hshift : shl ((opcode.extractLsb' 0 8).setWidth 32 : Word) 1 = .ok _ := shl_of_lt (by decide)
  rw [thumbWording, hcondition, ok_bind, hfield, ok_bind, hshift, ok_bind, hdistance, ok_bind,
    conditionOf_field]
  rfl

theorem thumbWording_branch :
    thumbWording opcode address .branch = .ok (ThumbInstruction.text
      (.branch (opcode.extractLsb' 0 11)) address) := by
  have hfield := thumbField_eq_ok opcode 0 10 11 (by decide)
  have hdistance : signExtend ((opcode.extractLsb' 0 11).setWidth 32 <<< 1) 12 =
      .ok (ThumbInstruction.branchDistance (opcode.extractLsb' 0 11)) :=
    signExtend_shl_field _ 1 (by decide) (by decide)
  have hshift : shl ((opcode.extractLsb' 0 11).setWidth 32 : Word) 1 = .ok _ :=
    shl_of_lt (by decide)
  rw [thumbWording, hfield, ok_bind, hshift, ok_bind, hdistance, ok_bind]
  rfl

/-- The text of an opcode of a given format is that of its instruction. -/
theorem thumbWording_eq_ok :
    thumbWording opcode address (ThumbKind.ofOpcode opcode) =
      .ok (disassembleThumb opcode address) := by
  unfold disassembleThumb ThumbInstruction.ofOpcode?
  cases ThumbKind.ofOpcode opcode with
  | shiftedMove =>
    have hkind := thumbField_eq_ok opcode 11 12 2 (by decide)
    simp (disch := decide) only [thumbWording, thumbRegister_of_lt, fieldOf_eq_ok, hkind, ok_bind,
      pure_eq_ok, shiftKindOf_field]
    rfl
  | addSubtract =>
    simp (disch := decide) only [thumbWording, getBit_of_lt, thumbRegister_of_lt, ok_bind,
      pure_eq_ok, thumbSmallText_eq_ok]
    rfl
  | immediate =>
    have hcode := getBits_field opcode 11 12 2 (by decide)
    have hvalue := thumbField_eq_ok opcode 0 7 8 (by decide)
    simp (disch := decide) only [thumbWording, thumbRegister_of_lt, hcode, hvalue, ok_bind,
      pure_eq_ok, toNat_setWidth_word, thumbImmediateOperation_field]
    rfl
  | alu =>
    have hcode := getBits_field opcode 6 9 4 (by decide)
    simp (disch := decide) only [thumbWording, thumbRegister_of_lt, hcode, ok_bind, pure_eq_ok,
      ← registerOperation_eq]
    rfl
  | highRegister => exact thumbHighText_eq_ok opcode address
  | pcRelativeLoad =>
    simp (disch := decide) only [thumbWording, thumbRegister_of_lt, thumbWordText_eq_ok, ok_bind,
      pure_eq_ok]
    rfl
  | registerOffset =>
    simp (disch := decide) only [thumbWording, getBit_of_lt, ok_bind]
    exact thumbOffsetText_eq_ok opcode address _
  -- both kinds of register offset are worded by one function
  | signExtended =>
    simp (disch := decide) only [thumbWording, getBit_of_lt, ok_bind]
    exact thumbOffsetText_eq_ok opcode address _
  | immediateOffset =>
    have hfield := thumbField_eq_ok opcode 6 10 5 (by decide)
    simp (disch := decide) only [thumbWording, getBit_of_lt, hfield, shl_scaledOffset_word, ok_bind]
    cases opcode.getLsbD 12
    · exact thumbImmediateText_eq_ok opcode address .word _ _
    · rw [← scaledOffset_byte]
      exact thumbImmediateText_eq_ok opcode address .byte _ _
  | halfword =>
    have hfield := thumbField_eq_ok opcode 6 10 5 (by decide)
    simp (disch := decide) only [thumbWording, getBit_of_lt, hfield, shl_scaledOffset_halfword,
      ok_bind]
    exact thumbImmediateText_eq_ok opcode address .halfword _ _
  | spRelative =>
    simp (disch := decide) only [thumbWording, getBit_of_lt, thumbRegister_of_lt,
      thumbWordText_eq_ok, ok_bind, pure_eq_ok]
    rfl
  | loadAddress =>
    simp (disch := decide) only [thumbWording, getBit_of_lt, thumbRegister_of_lt,
      thumbWordText_eq_ok, ok_bind, pure_eq_ok]
    rfl
  | adjustStack =>
    have hfield := thumbField_eq_ok opcode 0 6 7 (by decide)
    -- seven bits and two more fit a word
    have hdistance : ∀ field : BitVec 7,
        ((field.setWidth 32 : Word) <<< 2).toNat = 4 * field.toNat := by
      decide
    simp (disch := decide) only [thumbWording, getBit_of_lt, hfield, shl_of_lt, hdistance, ok_bind,
      pure_eq_ok]
    rfl
  | pushPop =>
    have hform := thumbPushPopText_eq_ok opcode address
    cases hbit : opcode.getLsbD 11
    all_goals
      rw [hbit] at hform
      exact hform
  | multiple =>
    have hlist := getBits_field opcode 0 7 8 (by decide)
    have hform := registerListText_eq_ok (ThumbInstruction.multipleTransfer (opcode.getLsbD 11)
      (ThumbInstruction.lowAt opcode 8) (opcode.extractLsb' 0 8))
    change registerListText ((opcode.extractLsb' 0 8).setWidth 16) = _ at hform
    simp (disch := decide) only [thumbWording, getBit_of_lt, thumbRegister_of_lt, hlist, hform,
      ok_bind, pure_eq_ok]
    rfl
  | conditionalBranch => exact thumbWording_conditionalBranch opcode address
  | softwareInterrupt =>
    have hfield := thumbField_eq_ok opcode 0 7 8 (by decide)
    simp (disch := decide) only [thumbWording, hfield, ok_bind, pure_eq_ok, toNat_setWidth_word]
    rfl
  | branch => exact thumbWording_branch opcode address
  | longBranch =>
    have hform := thumbLongText_eq_ok opcode address
    cases hbit : opcode.getLsbD 11
    all_goals
      rw [hbit] at hform
      exact hform
  | undefined => rfl

/-- Wording a Thumb opcode does not trap, and gives the text of the disassembler. -/
theorem thumbText_eq_ok : thumbText opcode address = .ok (disassembleThumb opcode address) := by
  have hshift : shr opcode 8 = .ok (opcode >>> 8) := shr_of_lt (by decide)
  have hbyte : (opcode >>> 8).setWidth 8 = opcode.extractLsb' 8 8 := by
    refine BitVec.eq_of_getLsbD_eq fun i hi => ?_
    rw [BitVec.getLsbD_setWidth, BitVec.getLsbD_ushiftRight, BitVec.getLsbD_extractLsb']
  rw [thumbText, hshift, ok_bind, hbyte]
  exact thumbWording_eq_ok opcode address

end ThumbTexts

end Armv4t.Trapping

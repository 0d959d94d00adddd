import Armv4t.Proofs.DataProcessing
import Mathlib.Data.Nat.Digits.Lemmas
import Mathlib.Tactic.LinearCombination

/-!
# Carry chains

Numbers of many words are added and subtracted a word at a time, each link of the chain taking the
carry that the link before has left.  Main statement: a chain of any length computes the exact
result, cut down to as many words, and the flags that it leaves are those of the whole result
(`carry_chain_exact`).

Lists of words stand for numbers with the least significant word first, read as unsigned
(`Words.unsigned`) or in two's complement (`Words.signed`).  The heart of the matter is that
another word below the others keeps an exact result exact (`Words.Exact.cons`), and with it an
induction on the length for additions with carry (`AluOperation.exact_chain_adc`).  Subtractions are
additions of complements, and reversed subtractions exchange the operands.
-/

namespace Armv4t

open StepM

/-! ### Numbers of many words -/

namespace Words

/-- The number that words stand for, the least significant word first. -/
def unsigned (words : List Word) : Nat :=
  Nat.ofDigits (2 ^ 32) (words.map BitVec.toNat)

/-- The same number in two's complement. -/
def signed (words : List Word) : Int :=
  if 2 * unsigned words < 2 ^ (32 * words.length) then unsigned words
  else unsigned words - (2 ^ (32 * words.length) : Nat)

example : signed [0, 0x80000000] = -2 ^ 63 ∧ signed [0xFFFFFFFF, 0xFFFFFFFF] = -1 := by decide

theorem unsigned_cons (word : Word) (rest : List Word) :
    unsigned (word :: rest) = word.toNat + 2 ^ 32 * unsigned rest :=
  Nat.ofDigits_cons

theorem unsigned_singleton (word : Word) : unsigned [word] = word.toNat :=
  Nat.ofDigits_singleton

/-- One word more makes room for a word's worth more. -/
theorem two_pow_succ (n : Nat) : 2 ^ (32 * (n + 1)) = 2 ^ 32 * 2 ^ (32 * n) := by
  ring

theorem unsigned_lt (words : List Word) : unsigned words < 2 ^ (32 * words.length) := by
  induction words with
  | nil => exact Nat.one_pos
  | cons word rest ih =>
    have hword := word.isLt
    rw [unsigned_cons, List.length_cons, two_pow_succ]
    omega

/-- The complement of every word is the complement of the number. -/
theorem unsigned_not (words : List Word) :
    unsigned (words.map (~~~·)) + unsigned words + 1 = 2 ^ (32 * words.length) := by
  induction words with
  | nil => rfl
  | cons word rest ih =>
    have hword := word.isLt
    have hnot : (~~~word).toNat = 2 ^ 32 - 1 - word.toNat := BitVec.toNat_not
    rw [List.map_cons, unsigned_cons, unsigned_cons, List.length_cons, two_pow_succ, hnot]
    omega

section Signed

variable {words : List Word} (h : 0 < words.length)

include h

/-- Some words stand for an even count of numbers, half of which are negative. -/
theorem two_pow_eq_two_mul : 2 ^ (32 * words.length) = 2 * 2 ^ (32 * words.length - 1) := by
  rw [← Nat.pow_succ']
  congr 1
  omega

theorem signed_cons (word : Word) :
    signed (word :: words) = word.toNat + 2 ^ 32 * signed words := by
  have hword := word.isLt
  have heven := two_pow_eq_two_mul h
  unfold signed
  rw [unsigned_cons, List.length_cons, two_pow_succ]
  -- half of an even room is a whole number, which a word below it cannot cross
  generalize 2 ^ (32 * words.length) = room at heven ⊢
  split_ifs
  · omega
  · omega
  · omega
  · omega

theorem signed_not : signed (words.map (~~~·)) = -1 - signed words := by
  have hnot := unsigned_not words
  have hlt := unsigned_lt words
  have heven := two_pow_eq_two_mul h
  unfold signed
  rw [List.length_map]
  generalize 2 ^ (32 * words.length) = room at hnot hlt heven ⊢
  split_ifs
  · omega
  · omega
  · omega
  · omega

end Signed

theorem signed_singleton (word : Word) : signed [word] = word.toInt := by
  have hint := BitVec.toInt_eq_toNat_cond word
  unfold signed
  rw [unsigned_singleton, hint]
  rfl

/-- The words are those of an exact result, and the flags tell where it lies. -/
structure Exact (bound unsigned signed : Int) (words : List Word) (flags : Flags) : Prop where
  value : (Words.unsigned words : Int) = unsigned % 2 ^ (32 * words.length)
  carry : flags.carry = true ↔ bound ≤ unsigned
  negative : flags.negative = (Words.unsigned words).testBit (32 * words.length - 1)
  overflow : flags.overflow = true ↔
    signed < -2 ^ (32 * words.length - 1) ∨ 2 ^ (32 * words.length - 1) ≤ signed

/-- As much more in the bound and in the unsigned value as the words have room for is not seen. -/
theorem Exact.of_add {bound unsigned signed : Int} {words : List Word} {flags : Flags}
    (h : Exact (bound + 2 ^ (32 * words.length)) (unsigned + 2 ^ (32 * words.length)) signed words
      flags) : Exact bound unsigned signed words flags := by
  refine ⟨?_, ?_, h.negative, h.overflow⟩
  · rw [h.value, Int.add_emod_right]
  · rw [h.carry]
    omega

/-- One result is an exact result of one word. -/
theorem exact_singleton (unsigned signed : Int) (flags : Flags) :
    Exact 0x100000000 unsigned signed [(AluResult.ofExact 0x100000000 unsigned signed).value]
      (flags.after (.ofExact 0x100000000 unsigned signed)) where
  value := by
    rw [unsigned_singleton]
    show ((BitVec.ofInt 32 unsigned).toNat : Int) = unsigned % 2 ^ 32
    rw [BitVec.toNat_ofInt]
    omega
  carry := decide_eq_true_iff
  negative := by
    show (AluResult.ofExact 0x100000000 unsigned signed).value.msb = Nat.testBit _ 31
    rw [unsigned_singleton, BitVec.testBit_toNat]
    exact BitVec.msb_eq_getLsbD_last _
  overflow := decide_eq_true_iff

/-- Another word below the words makes the exact result greater by as much as it has room for. -/
theorem Exact.cons {unsigned signed : Int} {words : List Word} {flags : Flags}
    (h : Exact (2 ^ (32 * words.length)) unsigned signed words flags) (hpos : 0 < words.length)
    (word : Word) :
    Exact (2 ^ (32 * (words.length + 1))) (word.toNat + 2 ^ 32 * unsigned)
      (word.toNat + 2 ^ 32 * signed) (word :: words) flags := by
  have hword := word.isLt
  have hpow : (2 : Int) ^ (32 * (words.length + 1)) = 2 ^ 32 * 2 ^ (32 * words.length) := by ring
  have hlast : 32 * (words.length + 1) - 1 = 32 * words.length - 1 + 32 := by omega
  refine ⟨?_, ?_, ?_, ?_⟩
  · have hroom : (Words.unsigned words : Int) < 2 ^ (32 * words.length) := by
      exact_mod_cast unsigned_lt words
    -- what the words drop, a word further up, is what they drop together with the word below
    have hparts := Int.mul_ediv_add_emod unsigned (2 ^ (32 * words.length))
    have hsplit : word.toNat + 2 ^ 32 * unsigned =
        (word.toNat + 2 ^ 32 * (Words.unsigned words : Int)) +
          2 ^ (32 * (words.length + 1)) * (unsigned / 2 ^ (32 * words.length)) := by
      rw [h.value, hpow]
      linear_combination -(2 ^ 32) * hparts
    rw [List.length_cons, hsplit, Int.add_mul_emod_self_left, unsigned_cons, hpow]
    push_cast
    symm
    apply Int.emod_eq_of_lt
    · omega
    · omega
  · rw [h.carry, hpow]
    generalize (2 : Int) ^ (32 * words.length) = room
    omega
  · rw [h.negative, unsigned_cons, List.length_cons, hlast, Nat.add_comm,
      Nat.testBit_two_pow_mul_add _ word.isLt, if_neg (by omega), Nat.add_sub_cancel]
  · rw [h.overflow, List.length_cons, hlast, pow_add]
    generalize (2 : Int) ^ (32 * words.length - 1) = half
    omega

end Words

/-! ### Chains of operations -/

namespace AluOperation

/-- The words and the flags that an operation gives on pairs of words one after the other, each time
with the carry that is left from before. -/
def chain (operation : AluOperation) (flags : Flags) : List (Word × Word) → List Word × Flags
  | [] => ([], flags)
  | (a, b) :: rest =>
    let result := operation.evaluate a ⟨b, none⟩ flags.carry
    let ended := operation.chain (flags.after result) rest
    (result.value :: ended.1, ended.2)

theorem length_chain (operation : AluOperation) (flags : Flags) (pairs : List (Word × Word)) :
    (operation.chain flags pairs).1.length = pairs.length := by
  induction pairs generalizing flags with
  | nil => rfl
  | cons pair rest ih => exact congrArg Nat.succ (ih _)

/-- Subtracting with carry is adding the complements. -/
theorem chain_sbc (flags : Flags) (pairs : List (Word × Word)) :
    sbc.chain flags pairs = adc.chain flags (pairs.map fun pair => (pair.1, ~~~pair.2)) := by
  induction pairs generalizing flags with
  | nil => rfl
  | cons pair rest ih =>
    have hresult : sbc.evaluate pair.1 ⟨pair.2, none⟩ flags.carry =
        adc.evaluate pair.1 ⟨~~~pair.2, none⟩ flags.carry := subtractWithCarry_eq ..
    show (_, _) = (_, _)
    rw [hresult, ih]

/-- Subtracting in reverse is subtracting with the operands exchanged. -/
theorem chain_rsc (flags : Flags) (pairs : List (Word × Word)) :
    rsc.chain flags pairs = sbc.chain flags (pairs.map Prod.swap) := by
  induction pairs generalizing flags with
  | nil => rfl
  | cons pair rest ih =>
    show (_, _) = (_, _)
    rw [ih]
    rfl

/-- A word and the carry that it leaves make up the sum. -/
theorem value_add_carry (flags : Flags) (a b : Word) (carry : Bool) :
    (addWithCarry a b carry).value.toNat +
        2 ^ 32 * (flags.after (addWithCarry a b carry)).carry.toNat =
      a.toNat + b.toNat + carry.toNat := by
  have ha := a.isLt
  have hb := b.isLt
  have hc := carry.toNat_le
  -- the carry tells whether the sum has passed a word
  have hcarry : (flags.after (addWithCarry a b carry)).carry =
      decide (0x100000000 ≤ a.toNat + b.toNat + carry.toNat) :=
    congrArg (·.getD flags.carry) (carry_addWithCarry a b carry)
  rw [toNat_value_addWithCarry, hcarry]
  by_cases hlt : 0x100000000 ≤ a.toNat + b.toNat + carry.toNat
  · rw [decide_eq_true hlt, Bool.toNat_true]
    omega
  · rw [decide_eq_false hlt, Bool.toNat_false]
    omega

/-- **Adding with carry word by word is adding with carry.** -/
theorem exact_chain_adc (flags : Flags) {pairs : List (Word × Word)} (h : pairs ≠ []) :
    Words.Exact (2 ^ (32 * pairs.length))
      (Words.unsigned (pairs.map Prod.fst) + Words.unsigned (pairs.map Prod.snd) +
        flags.carry.toNat)
      (Words.signed (pairs.map Prod.fst) + Words.signed (pairs.map Prod.snd) + flags.carry.toNat)
      (adc.chain flags pairs).1 (adc.chain flags pairs).2 := by
  obtain ⟨pair, rest, rfl⟩ := List.exists_cons_of_ne_nil h
  clear h
  -- the induction is on the words after the first, with the carry that the first link leaves
  induction rest generalizing flags pair with
  | nil =>
    have hlink := addWithCarry_eq_ofExact pair.1 pair.2 flags.carry
    show Words.Exact (2 ^ 32) (Words.unsigned [_] + Words.unsigned [_] + _)
      (Words.signed [_] + Words.signed [_] + _)
      [(addWithCarry pair.1 pair.2 flags.carry).value]
      (flags.after (addWithCarry pair.1 pair.2 flags.carry))
    rw [Words.unsigned_singleton, Words.unsigned_singleton, Words.signed_singleton,
      Words.signed_singleton, hlink]
    exact Words.exact_singleton _ _ flags
  | cons next rest ih =>
    let result := addWithCarry pair.1 pair.2 flags.carry
    let after := flags.after result
    have hlink : result.value.toNat + 2 ^ 32 * after.carry.toNat =
        pair.1.toNat + pair.2.toNat + flags.carry.toNat := value_add_carry flags _ _ _
    have hrest := ih after next
    have hlength : (adc.chain after (next :: rest)).1.length = (next :: rest).length :=
      length_chain adc after (next :: rest)
    rw [← hlength] at hrest
    have hpos : 0 < (adc.chain after (next :: rest)).1.length := by
      rw [hlength]
      exact Nat.succ_pos _
    have hcons := hrest.cons hpos result.value
    rw [hlength] at hcons
    have hmap (f : Word × Word → Word) : 0 < ((next :: rest).map f).length := Nat.succ_pos _
    show Words.Exact (2 ^ (32 * ((next :: rest).length + 1)))
      (Words.unsigned (pair.1 :: (next :: rest).map Prod.fst) +
        Words.unsigned (pair.2 :: (next :: rest).map Prod.snd) + _)
      (Words.signed (pair.1 :: (next :: rest).map Prod.fst) +
        Words.signed (pair.2 :: (next :: rest).map Prod.snd) + _)
      (result.value :: (adc.chain after (next :: rest)).1) (adc.chain after (next :: rest)).2
    rw [Words.unsigned_cons, Words.unsigned_cons, Words.signed_cons (hmap _),
      Words.signed_cons (hmap _)]
    convert hcons using 1
    · push_cast
      omega
    · omega

/-- Subtracting with carry word by word is subtracting with carry. -/
theorem exact_chain_sbc (flags : Flags) {pairs : List (Word × Word)} (h : pairs ≠ []) :
    Words.Exact 0
      (Words.unsigned (pairs.map Prod.fst) - Words.unsigned (pairs.map Prod.snd) -
        (1 - flags.carry.toNat))
      (Words.signed (pairs.map Prod.fst) - Words.signed (pairs.map Prod.snd) -
        (1 - flags.carry.toNat))
      (sbc.chain flags pairs).1 (sbc.chain flags pairs).2 := by
  have hne : (pairs.map fun pair => (pair.1, ~~~pair.2)) ≠ [] := List.map_eq_nil_iff.not.2 h
  have hfst : (pairs.map fun pair => (pair.1, ~~~pair.2)).map Prod.fst = pairs.map Prod.fst :=
    List.map_map
  have hsnd : (pairs.map fun pair => (pair.1, ~~~pair.2)).map Prod.snd =
      (pairs.map Prod.snd).map (~~~·) := by
    rw [List.map_map, List.map_map]
    rfl
  have hpos : 0 < (pairs.map Prod.snd).length := by
    rw [List.length_map]
    exact List.length_pos_iff.2 h
  have hunsigned := Words.unsigned_not (pairs.map Prod.snd)
  have hsigned := Words.signed_not hpos
  have hadd := exact_chain_adc flags hne
  rw [hfst, hsnd, hsigned, ← chain_sbc, List.length_map] at hadd
  have hroom : (Words.unsigned ((pairs.map Prod.snd).map (~~~·)) : Int) +
      Words.unsigned (pairs.map Prod.snd) + 1 = 2 ^ (32 * pairs.length) := by
    rw [List.length_map] at hunsigned
    exact_mod_cast hunsigned
  -- the sum lies above the difference by as much as its bound lies above zero
  apply Words.Exact.of_add
  rw [length_chain]
  convert hadd using 1
  · omega
  · omega
  · omega

/-- Subtracting in reverse exchanges the operands. -/
theorem exact_chain_rsc (flags : Flags) {pairs : List (Word × Word)} (h : pairs ≠ []) :
    Words.Exact 0
      (Words.unsigned (pairs.map Prod.snd) - Words.unsigned (pairs.map Prod.fst) -
        (1 - flags.carry.toNat))
      (Words.signed (pairs.map Prod.snd) - Words.signed (pairs.map Prod.fst) -
        (1 - flags.carry.toNat))
      (rsc.chain flags pairs).1 (rsc.chain flags pairs).2 := by
  have hne : pairs.map Prod.swap ≠ [] := List.map_eq_nil_iff.not.2 h
  have hsub := exact_chain_sbc flags hne
  rw [List.map_map, List.map_map, ← chain_rsc] at hsub
  exact hsub

end AluOperation

/-! ### Kinds of chains -/

/-- The three ways of calculating with numbers of many words. -/
inductive ChainKind where
  | sum
  | difference
  /-- The first number is taken away from the second. -/
  | reversed
deriving DecidableEq, Repr

namespace ChainKind

/-- The operation on the first words. -/
def first : ChainKind → AluOperation
  | sum => .add
  | difference => .sub
  | reversed => .rsb

/-- The operation on the words that follow. -/
def next : ChainKind → AluOperation
  | sum => .adc
  | difference => .sbc
  | reversed => .rsc

/-- What the chain computes. -/
def total : ChainKind → Int → Int → Int
  | sum, a, b => a + b
  | difference, a, b => a - b
  | reversed, a, b => b - a

/-- Where the carry begins: at sums that need another word, and at differences without a borrow. -/
def bound (n : Nat) : ChainKind → Int
  | sum => 2 ^ (32 * n)
  | difference | reversed => 0

/-- The carry that makes the following operation the first one. -/
def carryIn : ChainKind → Bool
  | sum => false
  | difference | reversed => true

/-- On the first words, the operation that follows does the same with the right carry. -/
theorem after_evaluate_first (kind : ChainKind) (flags : Flags) (a b : Word) :
    kind.first.evaluate a ⟨b, none⟩ flags.carry =
        kind.next.evaluate a ⟨b, none⟩ kind.carryIn ∧
      flags.after (kind.first.evaluate a ⟨b, none⟩ flags.carry) =
        { flags with carry := kind.carryIn }.after
          (kind.next.evaluate a ⟨b, none⟩ kind.carryIn) := by
  cases kind with
  | sum | difference | reversed => exact ⟨rfl, rfl⟩

/-- The operation that follows, with the right carry, computes exactly. -/
theorem exact_chain (kind : ChainKind) (flags : Flags) {pairs : List (Word × Word)}
    (h : pairs ≠ []) :
    let ended := kind.next.chain { flags with carry := kind.carryIn } pairs
    Words.Exact (kind.bound pairs.length)
      (kind.total (Words.unsigned (pairs.map Prod.fst)) (Words.unsigned (pairs.map Prod.snd)))
      (kind.total (Words.signed (pairs.map Prod.fst)) (Words.signed (pairs.map Prod.snd)))
      ended.1 ended.2 := by
  cases kind with
  -- nothing is carried in, and nothing is borrowed in the other two
  | sum =>
    have hsum := AluOperation.exact_chain_adc { flags with carry := false } h
    simp only [Bool.toNat_false, Nat.cast_zero, add_zero] at hsum
    exact hsum
  | difference =>
    have hdifference := AluOperation.exact_chain_sbc { flags with carry := true } h
    simp only [Bool.toNat_true, Nat.cast_one, sub_self, sub_zero] at hdifference
    exact hdifference
  | reversed =>
    have hreversed := AluOperation.exact_chain_rsc { flags with carry := true } h
    simp only [Bool.toNat_true, Nat.cast_one, sub_self, sub_zero] at hreversed
    exact hreversed

end ChainKind

/-! ### Links of a chain -/

/-- A link of a chain: two words, the registers that they are brought to, and that of the result.
Any two links may share registers, and a result may replace an operand. -/
structure ChainLink where
  a : Word
  b : Word
  destination : Register
  first : Register
  second : Register
  destination_ne_pc : destination ≠ .pc
  first_ne_pc : first ≠ .pc
  second_ne_pc : second ≠ .pc
  first_ne_second : first ≠ second

namespace ChainLink

variable {c : Cpu}

/-- The words of a link. -/
def operands (link : ChainLink) : Word × Word :=
  (link.a, link.b)

/-- The instruction of a link, which sets the flags. -/
def instruction (link : ChainLink) (operation : AluOperation) : DataProcessing where
  operation := operation
  setFlags := true
  destination := link.destination
  first := link.first
  second := .plain link.second

/-- Brings the words to their registers, executes the opcode and tells the result. -/
def perform (link : ChainLink) (operation : AluOperation) : StepM Word := do
  modify fun cpu => (cpu.write link.first link.a).write link.second link.b
  executeArm (ArmInstruction.dataProcessing (link.instruction operation)).opcode
  return (← get).read link.destination

/-- Performs links one after the other. -/
def performAll (operation : AluOperation) : List ChainLink → StepM (List Word)
  | [] => return []
  | link :: rest => do
    let word ← link.perform operation
    let words ← performAll operation rest
    return word :: words

/-- A link gives the result of its operation on its words, and leaves the flags after it. -/
theorem yields_perform (link : ChainLink) {operation : AluOperation}
    (ht : operation.isTest = false) :
    Yields c (link.perform operation) fun _ result d =>
      result = .ok (operation.evaluate link.a ⟨link.b, none⟩ c.cpsr.flags.carry).value ∧
        d.cpsr.flags =
          c.cpsr.flags.after (operation.evaluate link.a ⟨link.b, none⟩ c.cpsr.flags.carry) := by
  let loaded := (c.write link.first link.a).write link.second link.b
  let instruction := link.instruction operation
  have hpc : ¬instruction.WritesPc := fun h => link.destination_ne_pc h.2
  have hflags : loaded.cpsr.flags = c.cpsr.flags := by
    rw [Cpu.cpsr_write, Cpu.cpsr_write]
  -- the operands are in different registers, so that loading the second keeps the first
  have hfirst : loaded.read link.first = link.a := by
    rw [Cpu.read_write _ _ link.second_ne_pc, if_neg link.first_ne_second,
      Cpu.read_write _ _ link.first_ne_pc, if_pos rfl]
  have hsecond : loaded.read link.second = link.b := by
    rw [Cpu.read_write _ _ link.second_ne_pc, if_pos rfl]
  have hresult : instruction.result loaded =
      operation.evaluate link.a ⟨link.b, none⟩ c.cpsr.flags.carry := by
    show operation.evaluate (loaded.read link.first)
      ((ShifterOperand.plain link.second).shifted loaded) loaded.cpsr.flags.carry = _
    rw [ShifterOperand.shifted_plain, hfirst, hsecond, hflags]
  -- from here on, the result is that of the instruction on the loaded registers
  rw [← hresult, ← hflags]
  have hencodable : (ArmInstruction.dataProcessing instruction).Encodable := fun _ => rfl
  have hopcode := DataProcessing.yields_opcode_of_not_writesPc (c := loaded) hpc
    (Opcode.armForm?_opcode hencodable) (Opcode.holds_opcode _ _)
  apply yields_modify_bind
  apply yields_bind_of_ok hopcode
  rintro _ d ⟨-, rfl⟩
  -- the destination is read after the instruction, which has moved the program counter only
  have hread : ((instruction.updated loaded).advanced .arm).read link.destination =
      (instruction.result loaded).value := by
    rw [Cpu.read_advanced _ _ link.destination_ne_pc]
    exact instruction.read_updated ht link.destination_ne_pc
  exact ⟨congrArg Except.ok hread, instruction.flags_updated (.inr rfl)⟩

/-- Links give the chain of their operation on their words. -/
theorem yields_performAll {operation : AluOperation} (ht : operation.isTest = false)
    (links : List ChainLink) :
    Yields c (performAll operation links) fun _ result d =>
      result = .ok (operation.chain c.cpsr.flags (links.map operands)).1 ∧
        d.cpsr.flags = (operation.chain c.cpsr.flags (links.map operands)).2 := by
  induction links generalizing c with
  | nil => exact ⟨rfl, rfl⟩
  | cons link rest ih =>
    apply yields_bind_of_ok (link.yields_perform ht)
    intro _ d hflags
    apply yields_bind_of_ok ih
    intro _ e hended
    rw [hflags] at hended ⊢
    exact ⟨rfl, hended⟩

end ChainLink

/-- Performs a chain: the first link without a carry from before, and the others with the carry of
the link before. -/
def ChainKind.perform (kind : ChainKind) (link : ChainLink) (rest : List ChainLink) :
    StepM (List Word) := do
  let word ← link.perform kind.first
  let words ← ChainLink.performAll kind.next rest
  return word :: words

/-- A chain is one of the operation that follows, with the right carry before. -/
theorem ChainKind.yields_perform (kind : ChainKind) (link : ChainLink) (rest : List ChainLink)
    {c : Cpu} :
    let ended := kind.next.chain { c.cpsr.flags with carry := kind.carryIn }
      ((link :: rest).map ChainLink.operands)
    Yields c (kind.perform link rest) fun _ result d =>
      result = .ok ended.1 ∧ d.cpsr.flags = ended.2 := by
  have hfirst : kind.first.isTest = false := by
    cases kind <;> rfl
  have hnext : kind.next.isTest = false := by
    cases kind <;> rfl
  -- the first instruction takes no carry: its result is that of the others with the right one
  obtain ⟨hevaluate, hafter⟩ := kind.after_evaluate_first c.cpsr.flags link.a link.b
  apply yields_bind_of_ok (link.yields_perform hfirst)
  intro _ d hflags
  rw [hafter] at hflags
  rw [hevaluate]
  apply yields_bind_of_ok (ChainLink.yields_performAll hnext rest)
  intro _ e hended
  -- the rest of the chain starts from the flags of the first word
  rw [hflags] at hended ⊢
  exact ⟨rfl, hended⟩

/-- **Carry chains compute with numbers of many words.**  On any processor, over any bus and for
links of any number, registers and words, a chain gives the words of the exact result, as many as
there are links; the carry, the sign and the overflow of the last link are those of the whole
result.  For one word, the two operations behind the chains are exact for every carry, and
subtracting is adding the complement. -/
theorem carry_chain_exact :
    (∀ {σ : Type} (bus : Bus σ) (state : σ) (c : Cpu) (kind : ChainKind) (link : ChainLink)
      (rest : List ChainLink),
      let links := link :: rest
      let a := links.map ChainLink.a
      let b := links.map ChainLink.b
      let run := (kind.perform link rest).runOn bus c state
      ∃ words, run.value.1 = .ok words ∧ words.length = links.length ∧
        Words.Exact (kind.bound links.length) (kind.total (Words.unsigned a) (Words.unsigned b))
          (kind.total (Words.signed a) (Words.signed b)) words run.value.2.cpsr.flags) ∧
    ∀ (a b : Word) (carry : Bool),
      addWithCarry a b carry =
        .ofExact (2 ^ 32) (a.toNat + b.toNat + carry.toNat) (a.toInt + b.toInt + carry.toNat) ∧
      subtractWithCarry a b carry =
        .ofExact 0 (a.toNat - b.toNat - (1 - carry.toNat))
          (a.toInt - b.toInt - (1 - carry.toNat)) ∧
      subtractWithCarry a b carry = addWithCarry a (~~~b) carry := by
  constructor
  · intro σ bus state c kind link rest
    dsimp only
    obtain ⟨hvalue, hflags⟩ :=
      BusProgram.Yields.run (kind.yields_perform link rest (c := c)) bus state
    have hne : (link :: rest).map ChainLink.operands ≠ [] := List.cons_ne_nil _ _
    -- the results are exact, as those of the chain that computes on words alone
    have hexact := kind.exact_chain c.cpsr.flags hne
    have hlength := AluOperation.length_chain kind.next
      { c.cpsr.flags with carry := kind.carryIn } ((link :: rest).map ChainLink.operands)
    dsimp only at hexact
    rw [← hflags, List.length_map, List.map_map, List.map_map] at hexact
    rw [List.length_map] at hlength
    exact ⟨_, hvalue, hlength, hexact⟩
  · intro a b carry
    exact ⟨addWithCarry_eq_ofExact a b carry, subtractWithCarry_eq_ofExact a b carry,
      subtractWithCarry_eq a b carry⟩

/-- A link in registers that all such links share, with the result in place of the first word. -/
def ChainLink.inPlace (a b : Word) : ChainLink where
  a := a
  b := b
  destination := .sp
  first := .sp
  second := .lr
  destination_ne_pc := Register.sp_ne_pc
  first_ne_pc := Register.sp_ne_pc
  second_ne_pc := Register.lr_ne_pc
  first_ne_second := Register.sp_ne_lr

/-- The greatest number of two words in two's complement and one: the carry goes from link to link,
and the sum has become negative without a carry out of the last one. -/
theorem carry_chain_exact_inPlace :
    let run := (ChainKind.sum.perform (.inPlace 0xFFFFFFFF 1) [.inPlace 0x7FFFFFFF 0]).runOn
      Memory.bus Cpu.reset { regions := [] }
    run.value.1 = .ok [0, 0x80000000] ∧ run.value.2.cpsr.flags.carry = false ∧
      run.value.2.cpsr.flags.negative = true ∧ run.value.2.cpsr.flags.overflow = true := by
  dsimp only
  obtain ⟨words, hvalue, hlength, hexact⟩ := carry_chain_exact.1 Memory.bus { regions := [] }
    Cpu.reset .sum (.inPlace 0xFFFFFFFF 1) [.inPlace 0x7FFFFFFF 0]
  generalize (ChainKind.sum.perform (.inPlace 0xFFFFFFFF 1) [.inPlace 0x7FFFFFFF 0]).runOn
    Memory.bus Cpu.reset { regions := [] } = run at hvalue hexact ⊢
  have hunsigned : (Words.unsigned [0xFFFFFFFF, 0x7FFFFFFF] + Words.unsigned [1, 0] : Int) =
      2 ^ 63 := by decide
  have hsigned : Words.signed [0xFFFFFFFF, 0x7FFFFFFF] + Words.signed [1, 0] = 2 ^ 63 := by
    decide
  change Words.Exact (2 ^ 64) (Words.unsigned [0xFFFFFFFF, 0x7FFFFFFF] + Words.unsigned [1, 0])
    (Words.signed [0xFFFFFFFF, 0x7FFFFFFF] + Words.signed [1, 0]) words _ at hexact
  rw [hunsigned, hsigned] at hexact
  obtain ⟨low, high, rfl⟩ := List.length_eq_two.1 hlength
  -- the number tells its words, and with them the sign
  have hnumber : ((low.toNat + 2 ^ 32 * high.toNat : Nat) : Int) = 2 ^ 63 := by
    rw [← Words.unsigned_singleton high, ← Words.unsigned_cons]
    simpa using hexact.value
  have hlow : low = 0 := by
    apply BitVec.eq_of_toNat_eq
    show low.toNat = 0
    omega
  have hhigh : high = 0x80000000 := by
    apply BitVec.eq_of_toNat_eq
    show high.toNat = 0x80000000
    omega
  subst hlow hhigh
  have hcarry : run.value.2.cpsr.flags.carry = false := by
    rw [← Bool.not_eq_true, hexact.carry]
    decide
  exact ⟨hvalue, hcarry, hexact.negative.trans (by decide), hexact.overflow.2 (by decide)⟩

end Armv4t

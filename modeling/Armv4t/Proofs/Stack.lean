import Armv4t.Proofs.Block
import Armv4t.Proofs.Success
import Mathlib.Logic.Function.Basic

/-!
# Blocks of words on a bus that keeps them

`Bus.KeepsWords` is what a memory behind a bus is relied on for: words written to some addresses are
read back.  Over such a bus a block store leaves the values of its registers there
(`succeeds_storeWords`), in distinct words (`slot_inj`), and a block load finds them
(`succeeds_loadWords`).
-/

namespace Armv4t

/-- The contents that are known of some addresses. -/
abbrev WordMap := Word → Option Word

/-- A bus takes every word that is written to an address of the block, gives back the words that it
is known to hold, and forgets none when it is told of cycles or of a branch.  `holds` says which
contents are known in a state of the bus. -/
structure Bus.KeepsWords {σ : Type} (bus : Bus σ) (block : Word → Prop)
    (holds : σ → WordMap → Prop) : Prop where
  write {state : σ} {words : WordMap} {address : Word} (h : holds state words)
    (ha : block address) (value : Word) :
    (bus.answer (.write .word address value) state).1 = .ok () ∧
      holds (bus.answer (.write .word address value) state).2
        (Function.update words address (some value))
  read {state : σ} {words : WordMap} {address value : Word} (h : holds state words)
    (hw : words address = some value) :
    (bus.answer (.read .word address) state).1 = .ok value ∧
      holds (bus.answer (.read .word address) state).2 words
  charge {state : σ} {words : WordMap} (h : holds state words) (cycles : Nat) :
    holds (bus.answer (.charge cycles) state).2 words
  branch {state : σ} {words : WordMap} (h : holds state words) (target : Word)
    (set : InstructionSet) : holds (bus.answer (.branch target set) state).2 words

/-! ### Contents after a block store -/

/-- The words of a block of less than the whole address space are distinct. -/
theorem slot_inj {start : Word} {i j : Nat} (hi : i < 0x40000000) (hj : j < 0x40000000)
    (h : slot start i = slot start j) : i = j := by
  -- aligning takes off what `start` lies above a boundary
  have hslot (k : Nat) (hk : k < 0x40000000) :
      (slot start k).toNat = (start.toNat + 4 * k) % 2 ^ 32 - start.toNat % 4 := by
    have hsum : (start + 4 * BitVec.ofNat 32 k).toNat = (start.toNat + 4 * k) % 2 ^ 32 := by
      rw [BitVec.toNat_add, BitVec.toNat_mul, BitVec.toNat_ofNat]
      change (start.toNat + 4 * (k % 2 ^ 32) % 2 ^ 32) % 2 ^ 32 = _
      omega
    unfold slot
    rw [Width.toNat_align, hsum]
    change (start.toNat + 4 * k) % 2 ^ 32 - (start.toNat + 4 * k) % 2 ^ 32 % 4 = _
    omega
  have heq := congrArg BitVec.toNat h
  have hlt := start.isLt
  -- less than the whole address space apart, the sums differ also where one of them wraps
  rw [hslot i hi, hslot j hj] at heq
  omega

/-- The contents after words have been stored at consecutive addresses. -/
def WordMap.store (words : WordMap) (start : Word) : List Word → WordMap
  | [] => words
  | value :: rest =>
    store (Function.update words (Width.word.align start) (some value)) (start + 4) rest

namespace WordMap

theorem store_of_ne {words : WordMap} {start address : Word} {values : List Word}
    (h : ∀ k < values.length, address ≠ slot start k) :
    words.store start values address = words address := by
  induction values generalizing words start with
  | nil => rfl
  | cons value rest ih =>
    -- the address is not the first slot, and none of those behind it
    have hfirst : address ≠ Width.word.align start := by
      rw [← slot_zero]
      exact h 0 (Nat.zero_lt_succ _)
    have hrest : ∀ k < rest.length, address ≠ slot (start + 4) k := by
      intro k hk
      rw [← slot_succ]
      exact h (k + 1) (Nat.succ_lt_succ hk)
    unfold store
    rw [ih hrest, Function.update_of_ne hfirst]

/-- A block that has been stored holds its words. -/
theorem store_slot {words : WordMap} {start : Word} {values : List Word}
    (hlen : values.length < 0x40000000) {k : Nat} (hk : k < values.length) :
    words.store start values (slot start k) = values[k]? := by
  induction values generalizing words start k with
  | nil => exact absurd hk (Nat.not_lt_zero k)
  | cons value rest ih =>
    rw [List.length_cons] at hlen hk
    unfold store
    cases k with
    | zero =>
      -- what is stored later lies in other slots, and leaves the first word alone
      have hne : ∀ k < rest.length, slot start 0 ≠ slot (start + 4) k := by
        intro k hk hs
        rw [← slot_succ] at hs
        have hzero := slot_inj (by omega) (by omega) hs
        omega
      rw [store_of_ne hne, slot_zero, Function.update_self]
      rfl
    | succ k =>
      rw [slot_succ, ih (by omega) (by omega), List.getElem?_cons_succ]

end WordMap

/-! ### The loops of a block transfer -/

namespace BlockTransfer

open StepM

variable {σ : Type} {bus : Bus σ} {block : Word → Prop} {holds : σ → WordMap → Prop} {c : Cpu}
  {state : σ} {words : WordMap} {registers : List Register} {start : Word}

/-- A block store to addresses that are kept stores the values of all registers. -/
theorem succeeds_storeWords (hk : bus.KeepsWords block holds) (value : Register → Word)
    (hb : ∀ k < registers.length, block (slot start k)) (h : holds state words) :
    Succeeds bus c state (storeWords value registers start) fun _ d t =>
      d = c ∧ holds t (words.store start (registers.map value)) := by
  induction registers generalizing start state words with
  | nil => exact succeeds_pure ⟨rfl, h⟩
  | cons register rest ih =>
    -- the first word is in the block and is kept for those behind it
    have hfirst : block (Width.word.align start) := by
      rw [← slot_zero]
      exact hb 0 (Nat.zero_lt_succ _)
    obtain ⟨hok, hheld⟩ := hk.write h hfirst (value register)
    refine succeeds_bind (succeeds_write hok) ?_
    rintro _ _ _ ⟨rfl, rfl⟩
    refine ih (fun k hlt => ?_) hheld
    rw [← slot_succ]
    exact hb (k + 1) (Nat.succ_lt_succ hlt)

/-- A block load from addresses whose words are known gives each register its word. -/
theorem succeeds_loadWords (hk : bus.KeepsWords block holds)
    (write : Register → Word → Cpu → Cpu) {values : List Word}
    (hlen : values.length = registers.length)
    (hw : ∀ k < values.length, words (slot start k) = values[k]?) (h : holds state words) :
    Succeeds bus c state (loadWords write registers start) fun _ d t =>
      d = (registers.zip values).foldl (fun cpu pair => write pair.1 pair.2 cpu) c ∧
        holds t words := by
  induction registers generalizing c start state values with
  | nil =>
    obtain rfl := List.eq_nil_of_length_eq_zero hlen
    exact succeeds_pure ⟨rfl, h⟩
  | cons register rest ih =>
    obtain ⟨value, values, rfl⟩ := List.exists_cons_of_length_eq_add_one hlen
    -- the bus answers with the first word, and still holds all of them
    have hfirst : words (Width.word.align start) = some value := by
      rw [← slot_zero]
      exact hw 0 (Nat.zero_lt_succ _)
    obtain ⟨hok, hheld⟩ := hk.read h hfirst
    refine succeeds_bind (succeeds_read hok) ?_
    rintro _ _ _ ⟨rfl, rfl, rfl⟩
    refine succeeds_modify_bind (ih (Nat.succ_inj.1 hlen) (fun k hlt => ?_) hheld)
    rw [← slot_succ]
    exact hw (k + 1) (Nat.succ_lt_succ hlt)

end BlockTransfer

end Armv4t

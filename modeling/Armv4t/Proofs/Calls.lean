import Armv4t.Proofs.Alignment
import Armv4t.Proofs.ArmForm
import Mathlib.Algebra.Group.Int.Defs
import Mathlib.Algebra.Group.Nat.Defs

/-!
# Branches and calls

What the branch instructions of both sets do: one cycle, the register that a link is kept in, and a
refill at a target that lies at a signed distance from the program counter.  The two halves of a
Thumb call hand the upper part of the distance over in the link register.  A branch with exchange
goes on where a register points to, in the instruction set that the lowest bit of it selects.

Together they make calls: **a call goes on at the address at its offset, and every branch with
exchange to the link register it has left comes back behind it**, in the caller's instruction set
(`branchLink_returns`).  Addresses wrap around at both ends of the address space.
-/

namespace Armv4t

open StepM

variable {c : Cpu}

/-! ### Distances -/

/-- The addresses of instructions are the multiples of their size, forwards and backwards. -/
theorem InstructionSet.align_ofInt (set : InstructionSet) (count : Int) :
    set.align (BitVec.ofInt 32 (set.width.bytes * count)) =
      BitVec.ofInt 32 (set.width.bytes * count) := by
  refine (Width.align_eq_self_iff _ _).2 ?_
  rw [BitVec.toNat_ofInt]
  cases set
  · show (4 * count % 4294967296).toNat % 4 = 0
    omega
  · show (2 * count % 4294967296).toNat % 2 = 0
    omega

theorem InstructionSet.align_of_eq {set : InstructionSet} {distance : Word} {count : Int}
    (h : distance = BitVec.ofInt 32 (set.width.bytes * count)) :
    set.align distance = distance := by
  rw [h]
  exact set.align_ofInt count

/-- A signed field that counts units of a power of two. -/
theorem signExtend_append_zero {n : Nat} (field : BitVec (n + 1)) (k : Nat) :
    (field ++ 0#k).signExtend 32 = BitVec.ofInt 32 (2 ^ k * field.toInt) := by
  rw [BitVec.signExtend, BitVec.toInt_append]
  simp

/-- An unsigned field that counts units of a power of two. -/
theorem toNat_append_zero {n : Nat} (field : BitVec n) (k : Nat) :
    (field ++ 0#k).toNat = 2 ^ k * field.toNat := by
  rw [BitVec.toNat_append, BitVec.toNat_ofNat, Nat.shiftLeft_eq, Nat.zero_mod, Nat.or_zero,
    Nat.mul_comm]

/-- An address at a signed distance ahead of a program counter. -/
theorem ofInt_ahead (address : Word) (ahead : Nat) (distance : Int) :
    BitVec.ofInt 32 (address.toNat + ahead + distance) =
      address + BitVec.ofNat 32 ahead + BitVec.ofInt 32 distance := by
  rw [BitVec.ofInt_add, BitVec.ofInt_add, BitVec.ofInt_natCast, BitVec.ofInt_natCast,
    BitVec.ofNat_toNat, BitVec.setWidth_eq]

/-- The program counter lies ahead of the instruction being executed. -/
theorem Cpu.pc_eq (cpu : Cpu) : cpu.pc = cpu.fetchAddress + cpu.instructionSet.lookahead :=
  (BitVec.sub_add_cancel _ _).symm

/-- The offset of a branch counts words. -/
theorem ArmInstruction.branchDistance_eq (offset : BitVec 24) :
    branchDistance offset = BitVec.ofInt 32 (4 * offset.toInt) :=
  signExtend_append_zero offset 2

namespace ThumbInstruction

/-- The offset of a conditional branch counts halfwords. -/
theorem conditionalDistance_eq (offset : BitVec 8) :
    conditionalDistance offset = BitVec.ofInt 32 (2 * offset.toInt) :=
  signExtend_append_zero offset 1

/-- So does that of an unconditional branch. -/
theorem branchDistance_eq (offset : BitVec 11) :
    branchDistance offset = BitVec.ofInt 32 (2 * offset.toInt) :=
  signExtend_append_zero offset 1

theorem callHigh_eq (high : BitVec 11) : callHigh high = BitVec.ofInt 32 (4096 * high.toInt) :=
  signExtend_append_zero high 12

theorem callLow_eq (low : BitVec 11) : callLow low = BitVec.ofInt 32 (2 * low.toNat) := by
  unfold callLow
  rw [← BitVec.ofNat_toNat, toNat_append_zero, ← BitVec.ofInt_natCast]
  rfl

/-- The halves of a call share one offset, which counts halfwords. -/
theorem callHigh_add_callLow (high low : BitVec 11) :
    callHigh high + callLow low = BitVec.ofInt 32 (2 * (high ++ low).toInt) := by
  have hoffset : (high ++ low).toInt = 2048 * high.toInt + low.toNat := BitVec.toInt_append
  rw [callHigh_eq, callLow_eq, ← BitVec.ofInt_add, hoffset]
  congr 1
  omega

end ThumbInstruction

/-! ### Branches -/

/-- One cycle has passed, and the processor has branched to an address. -/
structure Cpu.Jumps (cpu : Cpu) (address : Word) (events : List BusEvent)
    (outcome : Except Fault Unit) (ended : Cpu) : Prop where
  outcome : outcome = .ok ()
  events : events = .charge 1 :: cpu.branchEvents address
  ended : ended = cpu.branched address

/-- The processor with the address behind an ARM instruction in its link register, if it links. -/
def Cpu.linked (cpu : Cpu) (link : Bool) : Cpu :=
  if link then cpu.write .lr (cpu.pc - 4) else cpu

namespace Opcode

/-- A branch at the end of an instruction is the end of its opcode. -/
theorem yields_branchTo (opcode : Opcode) (d : Cpu) (address : Word) :
    Yields d (CpuM.branchTo address : StepM Flow) (opcode.Proceeds (d.Jumps address)) :=
  yields_lift (CpuM.yields_branchTo ⟨rfl, rfl, rfl⟩)

/-- An ARM branch. -/
theorem yields_branch {word : Word} {link : Bool} {offset : BitVec 24}
    (hi : ArmInstruction.ofOpcode? word = some (.branch link offset))
    (hc : (ArmInstruction.condition word).holds c.cpsr.flags = true) :
    Yields c (executeArm word)
      ((c.linked link).Jumps (c.pc + ArmInstruction.branchDistance offset)) := by
  have hform : (arm word).armForm? = some (.branch link offset) := hi
  apply yields_execute hform hc rfl
  apply yields_lift
  apply CpuM.yields_get_bind
  cases link
  · exact CpuM.yields_branchTo ⟨rfl, rfl, rfl⟩
  · exact CpuM.yields_modify_bind (CpuM.yields_branchTo ⟨rfl, rfl, rfl⟩)

/-- A conditional Thumb branch whose condition holds. -/
theorem yields_conditionalBranch {halfword : Halfword} {condition : Condition}
    {offset : BitVec 8}
    (hi : ThumbInstruction.ofOpcode? halfword = some (.conditionalBranch condition offset))
    (hc : condition.holds c.cpsr.flags = true) :
    Yields c (executeThumb halfword)
      (c.Jumps (c.pc + ThumbInstruction.conditionalDistance offset)) := by
  apply yields_executeThumb hi rfl
  apply yields_get_bind
  rw [if_pos hc]
  exact yields_branchTo _ c _

theorem yields_thumbBranch {halfword : Halfword} {offset : BitVec 11}
    (hi : ThumbInstruction.ofOpcode? halfword = some (.branch offset)) :
    Yields c (executeThumb halfword)
      (c.Jumps (c.pc + ThumbInstruction.branchDistance offset)) := by
  apply yields_executeThumb hi rfl
  exact yields_get_bind (yields_branchTo _ c _)

/-- The first half of a Thumb call goes on with the next instruction. -/
theorem yields_callFirst {halfword : Halfword} {high : BitVec 11}
    (hi : ThumbInstruction.ofOpcode? halfword = some (.callFirst high)) :
    Yields c (executeThumb halfword) fun _ result d =>
      result = .ok () ∧
        d = (c.write .lr (c.pc + ThumbInstruction.callHigh high)).advanced .thumb := by
  apply yields_executeThumb hi rfl
  exact ⟨rfl, rfl⟩

/-- The second half branches from what the first has left in the link register. -/
theorem yields_callSecond {halfword : Halfword} {low : BitVec 11}
    (hi : ThumbInstruction.ofOpcode? halfword = some (.callSecond low)) :
    Yields c (executeThumb halfword)
      ((c.write .lr ((c.pc - 2) ||| 1)).Jumps
        (c.read .lr + ThumbInstruction.callLow low)) := by
  apply yields_executeThumb hi rfl
  exact yields_get_bind (yields_branchTo _ _ _)

/-- The halves of a Thumb call, one after the other. -/
theorem yields_call {first second : Halfword} {high low : BitVec 11}
    (hf : ThumbInstruction.ofOpcode? first = some (.callFirst high))
    (hs : ThumbInstruction.ofOpcode? second = some (.callSecond low)) :
    Yields c (do executeThumb first; executeThumb second) fun _ result d =>
      result = .ok () ∧ d = (c.write .lr (c.pc ||| 1)).branched
        (c.pc + ThumbInstruction.callHigh high + ThumbInstruction.callLow low) := by
  have hlink : c.pc ||| 1 = (c.pc + 2 - 2) ||| 1 := by
    rw [BitVec.add_sub_cancel]
  rw [hlink]
  apply yields_bind (yields_callFirst hf)
  · rintro events ⟨⟩ d ⟨-, hd⟩
    -- the second half finds the high part in the link register, which it then overwrites
    subst hd
    apply BusProgram.Yields.mono (yields_callSecond hs)
    rintro more ⟨result, e⟩ h
    exact ⟨h.outcome, h.ended⟩
  · rintro events fault d ⟨hfault, -⟩
    cases hfault

/-! ### Branches with exchange -/

/-- The register that an opcode of either set branches to with exchange, if it does. -/
def exchanges? : Opcode → Option Register
  | arm word => match ArmInstruction.ofOpcode? word with
    | some (.branchExchange target) => some target
    | _ => none
  | thumb halfword => match ThumbInstruction.ofOpcode? halfword with
    | some (.highRegister .exchange target _) => some target
    | _ => none

/-- The opcodes of both sets that branch with exchange to the link register. -/
example : (arm 0xE12FFF1E).exchanges? = some .lr ∧ (thumb 0x4770).exchanges? = some .lr := by
  decide

/-- A branch with exchange goes to where the register points, in the set that its lowest bit
selects, whatever the set it is executed in. -/
theorem yields_exchange {opcode : Opcode} {target : Register}
    (h : opcode.exchanges? = some target) (hc : opcode.holds c.cpsr.flags = true) :
    Yields c opcode.execute
      ((c.withInstructionSet (if (c.read target).getLsbD 0 then .thumb else .arm)).Jumps
        (c.read target)) := by
  rcases opcode with word | halfword
  -- the opcode is an exchange of its set
  · have hi : ArmInstruction.ofOpcode? word = some (.branchExchange target) := by
      unfold exchanges? at h
      grind
    have hform : (arm word).armForm? = some (.branchExchange target) := hi
    apply yields_execute hform hc rfl
    exact yields_branchTo _ _ _
  · obtain ⟨unused, hi⟩ : ∃ unused, ThumbInstruction.ofOpcode? halfword =
        some (.highRegister .exchange target unused) := by
      unfold exchanges? at h
      grind
    apply yields_executeThumb hi rfl
    exact yields_branchTo _ _ _

end Opcode

/-! ### Calls -/

/-- A call: an ARM branch with link under a condition, or the two halves of a Thumb call. -/
inductive BranchLink where
  | arm (condition : BitVec 4) (offset : BitVec 24)
  | thumb (high low : BitVec 11)
deriving DecidableEq, Repr

namespace BranchLink

/-- The instruction set of the caller. -/
def instructionSet : BranchLink → InstructionSet
  | arm .. => .arm
  | thumb .. => .thumb

/-- Executes the opcodes of the call. -/
def perform : BranchLink → StepM Unit
  | arm condition offset => executeArm (condition ++ 0b1011#4 ++ offset)
  | thumb high low => do
    executeThumb (0b11110#5 ++ high)
    executeThumb (0b11111#5 ++ low)

/-- Whether the condition of the call holds; a Thumb call has none. -/
def holds (flags : Flags) : BranchLink → Bool
  | arm condition _ => (Condition.ofField condition).holds flags
  | thumb .. => true

/-- Where a call from an address leads: its offset is signed, and addresses wrap around. -/
def target (address : Word) : BranchLink → Word
  | arm _ offset => BitVec.ofInt 32 (address.toNat + 8 + 4 * offset.toInt)
  | thumb high low => BitVec.ofInt 32 (address.toNat + 4 + 2 * (high ++ low).toInt)

/-- What a call from an address keeps in the link register: the address behind it, with the lowest
bit set for Thumb. -/
def link (address : Word) : BranchLink → Word
  | arm .. => address + 4
  | thumb .. => (address + 4) ||| 1

/-- The opcode of an ARM call says a branch with link. -/
theorem ofOpcode?_arm (condition : BitVec 4) (offset : BitVec 24) :
    ArmInstruction.ofOpcode? (condition ++ 0b1011#4 ++ offset) = some (.branch true offset) := by
  -- the second part of the opcode, from bit 24 on, is that of a branch with a link
  have hspace : (condition ++ 0b1011#4 ++ offset).extractLsb' 25 3 = 0b101#3 := by
    rw [BitVec.extractLsb'_append_eq_of_le (by decide),
      BitVec.extractLsb'_append_eq_of_add_le (by decide)]
    rfl
  have hlink : (condition ++ 0b1011#4 ++ offset).getLsbD 24 = true := by
    rw [BitVec.getLsbD_append, BitVec.getLsbD_append]
    rfl
  have hoffset : (condition ++ 0b1011#4 ++ offset).extractLsb' 0 24 = offset :=
    BitVec.extractLsb'_append_eq_right
  unfold ArmInstruction.ofOpcode?
  rw [ArmKind.ofOpcode_of_space hspace]
  show some (ArmInstruction.branch _ _) = _
  rw [hlink, hoffset]

theorem condition_arm (condition : BitVec 4) (offset : BitVec 24) :
    ArmInstruction.condition (condition ++ 0b1011#4 ++ offset) = .ofField condition := by
  unfold ArmInstruction.condition
  rw [BitVec.extractLsb'_append_eq_of_le (by decide)]
  exact congrArg _ BitVec.extractLsb'_append_eq_left

/-- The high byte of either half of a call marks it as one. -/
theorem ofHighByte_thumb : ∀ (second : Bool) (top : BitVec 3),
    ThumbKind.ofHighByte (0b1111#4 ++ BitVec.ofBool second ++ top) = .longBranch := by
  decide

/-- The halves of a Thumb call are told apart by one bit. -/
theorem ofOpcode?_thumb (second : Bool) (offset : BitVec 11) :
    ThumbInstruction.ofOpcode? (0b1111#4 ++ BitVec.ofBool second ++ offset) =
      some (if second then .callSecond offset else .callFirst offset) := by
  -- the high byte is known but for three bits of the distance
  have hbyte : (0b1111#4 ++ BitVec.ofBool second ++ offset).extractLsb' 8 8 =
      0b1111#4 ++ BitVec.ofBool second ++ offset.extractLsb' 8 3 := by
    ext i hi
    simp only [BitVec.getElem_extractLsb', BitVec.getLsbD_append]
    grind
  have hkind : ThumbKind.ofOpcode (0b1111#4 ++ BitVec.ofBool second ++ offset) = .longBranch := by
    unfold ThumbKind.ofOpcode
    rw [hbyte]
    exact ofHighByte_thumb second _
  have hhalf : (0b1111#4 ++ BitVec.ofBool second ++ offset).getLsbD 11 = second := by
    rw [BitVec.getLsbD_append, BitVec.getLsbD_append]
    cases second <;> rfl
  have hoffset : (0b1111#4 ++ BitVec.ofBool second ++ offset).extractLsb' 0 11 = offset :=
    BitVec.extractLsb'_append_eq_right
  unfold ThumbInstruction.ofOpcode?
  rw [hkind]
  dsimp only
  rw [hhalf, hoffset]
  cases second <;> rfl

variable {call : BranchLink}

/-- A call leads to its target, with its link in the link register. -/
theorem yields_perform (hset : c.instructionSet = call.instructionSet)
    (hc : call.holds c.cpsr.flags = true) :
    Yields c call.perform fun _ result d => result = .ok () ∧
      d = (c.write .lr (call.link c.fetchAddress)).branched (call.target c.fetchAddress) := by
  have hpc := c.pc_eq
  rw [hset] at hpc
  cases call with
  | arm condition offset =>
    have hholds : (ArmInstruction.condition (condition ++ 0b1011#4 ++ offset)).holds
        c.cpsr.flags = true := by
      rw [condition_arm]
      exact hc
    -- the processor runs two instructions ahead, which the offset allows for
    have htarget : (arm condition offset).target c.fetchAddress =
        c.pc + ArmInstruction.branchDistance offset := by
      rw [hpc, ArmInstruction.branchDistance_eq]
      exact ofInt_ahead c.fetchAddress 8 _
    have hlink : (arm condition offset).link c.fetchAddress = c.pc - 4 := by
      rw [hpc]
      show c.fetchAddress + 4 = c.fetchAddress + 8 - 4
      bv_omega
    rw [htarget, hlink]
    apply BusProgram.Yields.mono (Opcode.yields_branch (ofOpcode?_arm condition offset) hholds)
    rintro events ⟨result, d⟩ h
    exact ⟨h.outcome, h.ended⟩
  | thumb high low =>
    have htarget : (thumb high low).target c.fetchAddress =
        c.pc + ThumbInstruction.callHigh high + ThumbInstruction.callLow low := by
      rw [hpc, BitVec.add_assoc, ThumbInstruction.callHigh_add_callLow]
      exact ofInt_ahead c.fetchAddress 4 _
    -- the program counter is the address behind the call, and the lowest bit marks the state
    have hlink : (thumb high low).link c.fetchAddress = c.pc ||| 1 := by
      rw [hpc]
      rfl
    rw [htarget, hlink]
    exact Opcode.yields_call (ofOpcode?_thumb false high) (ofOpcode?_thumb true low)

/-- Behind an aligned caller, the link selects the caller's instruction set and is aligned to the
address behind the call. -/
theorem exchange_link {address : Word} (ha : call.instructionSet.align address = address) :
    (if (call.link address).getLsbD 0 then InstructionSet.thumb else .arm) = call.instructionSet ∧
      call.instructionSet.align (call.link address) = address + 4 := by
  cases call with
  -- a word boundary has an even address
  | arm condition offset =>
    have hlink : Width.word.align (address + 4) = address + 4 := Width.align_add ha rfl
    have hbit : (address + 4).getLsbD 0 = false := by
      rw [Width.align_eq_self_iff] at hlink
      rw [← Width.align_halfword_eq_self_iff, Width.align_eq_self_iff]
      show (address + 4).toNat % 2 = 0
      simp only [Width.bytes] at hlink
      omega
    exact ⟨if_neg (Bool.eq_false_iff.1 hbit), hlink⟩
  | thumb high low =>
    have hlink : Width.halfword.align (address + 4) = address + 4 := Width.align_add ha rfl
    have hbit : ((address + 4) ||| 1).getLsbD 0 = true := by
      simp
    -- the mark is cleared by aligning
    have hclear : ((address + 4) ||| 1) &&& ~~~1 = (address + 4) &&& ~~~1 := by
      ext i hi
      simp only [BitVec.getElem_and, BitVec.getElem_or, BitVec.getElem_not]
      cases (1#32)[i] <;> simp
    exact ⟨if_pos hbit, hclear.trans hlink⟩

/-- A call from an aligned address leads to one. -/
theorem align_target (call : BranchLink) {address : Word}
    (ha : call.instructionSet.align address = address) :
    call.instructionSet.align (call.target address) = call.target address := by
  cases call with
  | arm condition offset =>
    have htarget : (arm condition offset).target address =
        address + 8 + BitVec.ofInt 32 (4 * offset.toInt) := ofInt_ahead address 8 _
    rw [htarget]
    -- from a boundary, by a multiple of an instruction
    exact Width.align_add (Width.align_add ha rfl) (InstructionSet.arm.align_ofInt _)
  | thumb high low =>
    have htarget : (thumb high low).target address =
        address + 4 + BitVec.ofInt 32 (2 * (high ++ low).toInt) := ofInt_ahead address 4 _
    rw [htarget]
    exact Width.align_add (Width.align_add ha rfl) (InstructionSet.thumb.align_ofInt _)

end BranchLink

/-- Taking another instruction set and then the old one back changes nothing. -/
theorem Cpu.AgreesBut.backInSet {mode : Mode} {touched : Register → Prop} {d : Cpu}
    (h : c.AgreesBut mode touched d) (set : InstructionSet) :
    c.AgreesBut mode touched ((d.withInstructionSet set).withInstructionSet c.instructionSet) := by
  refine ⟨?_, h.spsrs, ?_⟩
  · show { d.cpsr with instructionSet := c.instructionSet } = c.cpsr
    rw [h.cpsr]
    rfl
  · intro other register hr hn
    rw [Cpu.readIn_withInstructionSet, Cpu.readIn_withInstructionSet]
    exact h.readIn other hr hn

/-- Calls return.  A call goes on at the address at its signed offset, in the caller's instruction
set, with its link in the link register, and leaves status and all other registers alone.  From any
processor that finds this link in its link register, a branch with exchange to it, executed in
either set and over any bus, goes on behind the call in the caller's instruction set; it changes
nothing else, so that a caller who was left alone but for the link register stays so. -/
theorem branchLink_returns {call : BranchLink} (hset : c.instructionSet = call.instructionSet)
    (ha : c.AtBoundary) (hc : call.holds c.cpsr.flags = true) {σ : Type} (bus : Bus σ)
    (state : σ) :
    let run := call.perform.runOn bus c state
    let called := run.value.2
    run.value.1 = .ok () ∧ called.fetchAddress = call.target c.fetchAddress ∧
      called.instructionSet = c.instructionSet ∧
      called.read .lr = call.link c.fetchAddress ∧
      c.AgreesBut c.mode (· = .lr) called ∧
      ∀ (back : Opcode) (d : Cpu), back.exchanges? = some .lr →
        back.holds d.cpsr.flags = true → d.read .lr = called.read .lr →
        ∀ {τ : Type} (later : Bus τ) (time : τ),
          let run := back.execute.runOn later d time
          let returned := run.value.2
          run.value.1 = .ok () ∧ returned.fetchAddress = c.fetchAddress + 4 ∧
            returned.instructionSet = c.instructionSet ∧
            d.ChangedTo { d.cpsr with instructionSet := c.instructionSet } (fun _ => False)
              returned ∧
            (c.AgreesBut c.mode (· = .lr) (d.withInstructionSet c.instructionSet) →
              c.AgreesBut c.mode (· = .lr) returned) := by
  intro run called
  have hperform : run.value.1 = .ok () ∧ called = _ :=
    BusProgram.Yields.run (BranchLink.yields_perform hset hc) bus state
  obtain ⟨hok, hcalled⟩ := hperform
  have hfetch : call.instructionSet.align c.fetchAddress = c.fetchAddress :=
    hset ▸ Cpu.align_fetchAddress ha
  have hread : called.read .lr = call.link c.fetchAddress := by
    rw [hcalled]
    rfl
  -- the call writes its link, and beside it only the program counter
  have hlinked : c.AgreesBut c.mode (· = .lr) (c.write .lr (call.link c.fetchAddress)) := by
    apply Cpu.AgreesBut.write (.refl c)
    · rfl
    · decide
  have hagrees : c.AgreesBut c.mode (· = .lr) called := by
    rw [hcalled]
    exact hlinked.withPc _
  refine ⟨hok, ?_, hagrees.instructionSet_eq, hread, hagrees, ?_⟩
  · rw [hcalled, Cpu.fetchAddress_branched, Cpu.instructionSet_write, hset]
    exact call.align_target hfetch
  · intro back d hback hholds hkept τ later time run returned
    obtain ⟨hselected, haligned⟩ := BranchLink.exchange_link hfetch
    have hexchange := Opcode.yields_exchange hback hholds
    rw [hkept, hread, hselected, ← hset] at hexchange
    obtain ⟨hdone, -, hreturned⟩ := BusProgram.Yields.run hexchange later time
    have hended : returned = (d.withInstructionSet c.instructionSet).branched _ := hreturned
    refine ⟨hdone, ?_, ?_, ?_, ?_⟩
    · rw [hended, Cpu.fetchAddress_branched, ← haligned, ← hset]
      rfl
    · rw [hended]
      rfl
    · rw [hended]
      refine ⟨rfl, rfl, ?_⟩
      intro mode register hr _
      exact (Cpu.readIn_withPc _ _ mode hr).trans (Cpu.readIn_withInstructionSet _ _ mode register)
    · intro hothers
      rw [hended]
      exact hothers.withPc _

/-- A Thumb call in the last halfword of the address space to itself: its link wraps around, and the
ARM encoding of the return, executed in ARM state, leads behind the call in Thumb state. -/
theorem branchLink_returns_wrapped :
    let caller : Cpu := { Cpu.reset.withInstructionSet .thumb with pc := 2 }
    let call : BranchLink := .thumb 0x7FF 0x7FE
    let memory : Memory := { regions := [] }
    let called := (call.perform.runOn Memory.bus caller memory).value.2
    let returned := ((executeArm 0xE12FFF1E).runOn Memory.bus (called.withInstructionSet .arm)
      memory).value.2
    caller.fetchAddress = 0xFFFFFFFE ∧ called.fetchAddress = 0xFFFFFFFE ∧ called.read .lr = 3 ∧
      returned.fetchAddress = 2 ∧ returned.instructionSet = .thumb ∧
      caller.AgreesBut caller.mode (· = .lr) returned := by
  intro caller call memory called returned
  -- the call leads back to its own second half
  have hset : caller.instructionSet = call.instructionSet := rfl
  have ha : caller.AtBoundary := by
    show _ = _
    decide
  obtain ⟨-, hfetch, hcalled, hlink, hagrees, hreturns⟩ :=
    branchLink_returns hset ha rfl Memory.bus memory
  obtain ⟨-, hback, hstate, -, hothers⟩ := hreturns (.arm 0xE12FFF1E)
    (called.withInstructionSet .arm) (by decide) (by decide) rfl Memory.bus memory
  refine ⟨by decide, hfetch.trans (by decide), hlink.trans (by decide), ?_, ?_, ?_⟩
  · exact hback.trans (by decide)
  · exact hstate.trans (by decide)
  · exact hothers (hagrees.backInSet .arm)

end Armv4t

import Armv4t.Monitor
import Armv4t.Proofs.Endings
import Mathlib.Data.Nat.Find
import Mathlib.Tactic.IntervalCases

/-!
# Cycles and notices of an opcode

Main statement: an opcode that comes to its end gives notice of at most one branch, which is where
it goes on, and takes one cycle, two more for the branch, and the internal cycles of its instruction
(`cycles_of_execute`).

`Opcode.internalCycles` tabulates the internal cycles.  All of them are constants but those of a
multiplication, which takes a cycle for each byte of its multiplier (`Multiplier.cycles_eq_length`).
`StepM.Costs` follows the cycles through a computation.  It keeps apart the two cycles of a branch,
so that the cost of an instruction does not depend on whether it branches.
-/

namespace Armv4t

/-! ### The length of a multiplier -/

namespace Multiplier

/-- The multiplier is a number of the given number of bytes, beside its sign if it has one. -/
def Fits (multiplier : Word) (signed : Bool) (bytes : Nat) : Prop :=
  if signed then -256 ^ bytes ≤ multiplier.toInt ∧ multiplier.toInt < 256 ^ bytes
  else multiplier.toNat < 256 ^ bytes

instance (multiplier : Word) (signed : Bool) : DecidablePred (Fits multiplier signed) :=
  fun bytes => inferInstanceAs (Decidable (if signed then
    -256 ^ bytes ≤ multiplier.toInt ∧ multiplier.toInt < 256 ^ bytes
    else multiplier.toNat < 256 ^ bytes))

/-- Every word has four bytes. -/
theorem fits_four (multiplier : Word) (signed : Bool) : Fits multiplier signed 4 := by
  have hlt := multiplier.isLt
  have htop := multiplier.toInt_lt
  have hbottom := multiplier.le_toInt
  unfold Fits
  split_ifs
  · constructor
    · omega
    · omega
  · omega

theorem exists_fits (multiplier : Word) (signed : Bool) :
    ∃ bytes, 1 ≤ bytes ∧ bytes ≤ 4 ∧ Fits multiplier signed bytes :=
  ⟨4, by omega, le_rfl, fits_four multiplier signed⟩

/-- The least number of bytes, from one to four, that the multiplier fits in. -/
def length (multiplier : Word) (signed : Bool) : Nat :=
  Nat.find (exists_fits multiplier signed)

/-- Below the bytes that are masked out, nothing is left but the remainder. -/
theorem toNat_and_mask (multiplier : Word) {bytes : Nat} (h : bytes < 4) :
    (multiplier &&& -1 <<< (8 * bytes)).toNat =
      multiplier.toNat - multiplier.toNat % 256 ^ bytes := by
  -- the mask is the complement of the bytes below
  have hmask : (-1 <<< (8 * bytes) : Word) = ~~~BitVec.ofNat 32 (256 ^ bytes - 1) := by
    interval_cases bytes <;> rfl
  have hlow : (multiplier &&& BitVec.ofNat 32 (256 ^ bytes - 1)).toNat =
      multiplier.toNat % 256 ^ bytes := by
    have hpow : 256 ^ bytes = 2 ^ (8 * bytes) := (pow_mul 2 8 bytes).symm
    have hle : 256 ^ bytes - 1 < 2 ^ 32 := by
      interval_cases bytes <;> decide
    rw [BitVec.toNat_and, BitVec.toNat_ofNat, Nat.mod_eq_of_lt hle, hpow,
      Nat.and_two_pow_sub_one_eq_mod]
  -- what is masked out and what is left make up the multiplier
  have hparts := congrArg BitVec.toNat
    (Width.and_not_add_and multiplier (BitVec.ofNat 32 (256 ^ bytes - 1)))
  rw [BitVec.toNat_add, hlow] at hparts
  have hhigh := (multiplier &&& ~~~BitVec.ofNat 32 (256 ^ bytes - 1)).isLt
  have hle := Nat.mod_le multiplier.toNat (256 ^ bytes)
  rw [hmask]
  omega

/-- The bits from some byte on are all zero exactly if the multiplier is small. -/
theorem and_mask_eq_zero_iff (multiplier : Word) {bytes : Nat} (h : bytes < 4) :
    multiplier &&& -1 <<< (8 * bytes) = 0 ↔ multiplier.toNat < 256 ^ bytes := by
  have hpos : 0 < 256 ^ bytes := by positivity
  rw [← BitVec.toNat_inj, toNat_and_mask multiplier h]
  change multiplier.toNat - multiplier.toNat % 256 ^ bytes = 0 ↔ _
  rw [Nat.sub_eq_zero_iff_le]
  constructor
  · intro hle
    exact lt_of_le_of_lt hle (Nat.mod_lt _ hpos)
  · intro hlt
    rw [Nat.mod_eq_of_lt hlt]

theorem and_mask_eq_mask_iff (multiplier : Word) {bytes : Nat} (h : bytes < 4) :
    multiplier &&& -1 <<< (8 * bytes) = (-1 <<< (8 * bytes) : Word) ↔
      2 ^ 32 - 256 ^ bytes ≤ multiplier.toNat := by
  have hmask : (-1 <<< (8 * bytes) : Word).toNat = 2 ^ 32 - 256 ^ bytes := by
    interval_cases bytes <;> rfl
  have hlt := multiplier.isLt
  rw [← BitVec.toNat_inj, toNat_and_mask multiplier h, hmask]
  interval_cases bytes <;> omega

theorem isExhausted_iff (multiplier : Word) (signed : Bool) {bytes : Nat} (h : bytes < 4) :
    isExhausted multiplier signed (8 * bytes) = true ↔ Fits multiplier signed bytes := by
  have hint := BitVec.toInt_eq_toNat_cond multiplier
  have hlt := multiplier.isLt
  unfold isExhausted Fits
  simp only [Bool.or_eq_true, Bool.and_eq_true, beq_iff_eq, and_mask_eq_zero_iff multiplier h,
    and_mask_eq_mask_iff multiplier h]
  cases signed with
  | false => simp
  | true =>
    simp only [true_and, ite_true]
    -- each of the two tests of a signed multiplier is one of the two bounds
    interval_cases bytes <;> split_ifs at hint <;> omega

theorem length_eq {multiplier : Word} {signed : Bool} {bytes : Nat} (hone : 1 ≤ bytes)
    (hfour : bytes ≤ 4) (hfits : Fits multiplier signed bytes)
    (hleast : ∀ fewer, 1 ≤ fewer → fewer < bytes → ¬Fits multiplier signed fewer) :
    length multiplier signed = bytes := by
  refine (Nat.find_eq_iff _).2 ⟨⟨hone, hfour, hfits⟩, fun fewer hlt h => ?_⟩
  exact hleast fewer h.1 hlt h.2.2

/-- The multiplier takes a cycle for each of its bytes. -/
theorem cycles_eq_length (multiplier : Word) (signed : Bool) :
    cycles multiplier signed = length multiplier signed := by
  have h1 : isExhausted multiplier signed 8 = true ↔ Fits multiplier signed 1 :=
    @isExhausted_iff multiplier signed 1 (by omega)
  have h2 : isExhausted multiplier signed 16 = true ↔ Fits multiplier signed 2 :=
    @isExhausted_iff multiplier signed 2 (by omega)
  have h3 : isExhausted multiplier signed 24 = true ↔ Fits multiplier signed 3 :=
    @isExhausted_iff multiplier signed 3 (by omega)
  unfold cycles
  simp only [h1, h2, h3]
  symm
  -- every length before the one that is found has failed its test, so that it is the least
  split_ifs with f1 f2 f3
  · exact length_eq le_rfl (by omega) f1 fun fewer _ _ => by omega
  · refine length_eq (by omega) (by omega) f2 fun fewer _ _ => ?_
    obtain rfl : fewer = 1 := by omega
    exact f1
  · refine length_eq (by omega) (by omega) f3 fun fewer _ _ => ?_
    obtain rfl | rfl : fewer = 1 ∨ fewer = 2 := by omega
    · exact f1
    · exact f2
  · refine length_eq (by omega) le_rfl (fits_four multiplier signed) fun fewer _ _ => ?_
    obtain rfl | rfl | rfl : fewer = 1 ∨ fewer = 2 ∨ fewer = 3 := by omega
    · exact f1
    · exact f2
    · exact f3

end Multiplier

/-! ### Internal cycles -/

/-- The internal cycles of a transfer of one register. -/
def Access.internalCycles : Access → Nat
  | load _ => 1
  | store _ => 0

/-- The internal cycles of an ARM instruction. -/
def ArmInstruction.internalCycles (cpu : Cpu) : ArmInstruction → Nat
  | dataProcessing instruction => if instruction.second.isByRegister then 1 else 0
  | multiply operation =>
    Multiplier.length (cpu.read operation.multiplier) true +
      if operation.addend.isSome then 1 else 0
  | multiplyLong operation =>
    Multiplier.length (cpu.read operation.multiplier) operation.signed +
      if operation.accumulate then 2 else 1
  | singleTransfer transfer => transfer.access.internalCycles
  | blockTransfer transfer => if transfer.load then 1 else 0
  | swap _ => 1
  | readStatus .. | writeStatus _ | branchExchange _ | branch .. | softwareInterrupt _ => 0

/-- The internal cycles of a Thumb instruction. -/
def ThumbInstruction.internalCycles (cpu : Cpu) : ThumbInstruction → Nat
  | alu (.shift _) _ _ => 1
  | alu .multiply _ destination => Multiplier.length (cpu.read (.low destination)) true
  | registerOffset access .. => access.internalCycles
  | immediateOffset _ load .. | spRelative load .. | multiple load .. => if load then 1 else 0
  | pcRelativeLoad .. | pop .. => 1
  | _ => 0

/-- The internal cycles of an opcode: those of its instruction if its condition holds. -/
def Opcode.internalCycles (cpu : Cpu) : Opcode → Nat
  | arm word =>
    if (ArmInstruction.condition word).holds cpu.cpsr.flags then
      (ArmInstruction.ofOpcode? word).elim 0 (·.internalCycles cpu)
    else 0
  | thumb halfword => (ThumbInstruction.ofOpcode? halfword).elim 0 (·.internalCycles cpu)

theorem Opcode.internalCycles_arm {cpu : Cpu} {word : Word} {instruction : ArmInstruction}
    (hc : (ArmInstruction.condition word).holds cpu.cpsr.flags = true)
    (hi : ArmInstruction.ofOpcode? word = some instruction) :
    (arm word).internalCycles cpu = instruction.internalCycles cpu := by
  unfold internalCycles
  dsimp only
  rw [if_pos hc, hi]
  rfl

theorem Opcode.internalCycles_thumb {cpu : Cpu} {halfword : Halfword}
    {instruction : ThumbInstruction}
    (hi : ThumbInstruction.ofOpcode? halfword = some instruction) :
    (thumb halfword).internalCycles cpu = instruction.internalCycles cpu := by
  unfold internalCycles
  dsimp only
  rw [hi]
  rfl

/-! ### Notices and cycles of events -/

/-- The branch of which a request gives notice. -/
def BusRequest.notice? : BusRequest → Option (Word × InstructionSet)
  | branch target set => some (target, set)
  | read .. | write .. | charge _ => none

namespace BusEvent

/-- The branches of which the events give notice, in order. -/
def notices (events : List BusEvent) : List (Word × InstructionSet) :=
  events.filterMap (·.request.notice?)

/-- The given number of cycles passes in the events, besides two for each notice of a branch. -/
def Cost (internal : Nat) (events : List BusEvent) : Prop :=
  totalCycles events = internal + 2 * (notices events).length

theorem totalCycles_append (events more : List BusEvent) :
    totalCycles (events ++ more) = totalCycles events + totalCycles more := by
  induction events with
  | nil => exact (Nat.zero_add _).symm
  | cons event rest ih =>
    change event.request.cycles + totalCycles (rest ++ more) =
      event.request.cycles + totalCycles rest + totalCycles more
    rw [ih, Nat.add_assoc]

theorem notices_append (events more : List BusEvent) :
    notices (events ++ more) = notices events ++ notices more :=
  List.filterMap_append

/-- Events without a branch give no notice. -/
theorem notices_eq_nil {events : List BusEvent}
    (h : ∀ event ∈ events, ¬event.request.IsBranch) : notices events = [] := by
  refine List.filterMap_eq_nil_iff.2 fun event he => ?_
  have hn := h event he
  revert hn
  cases event.request with
  | branch target set => exact fun hn => absurd trivial hn
  | _ => exact fun _ => rfl

theorem cost_nil : Cost 0 [] := rfl

theorem Cost.append {internal further : Nat} {events more : List BusEvent}
    (h : Cost internal events) (h' : Cost further more) :
    Cost (internal + further) (events ++ more) := by
  unfold Cost at *
  rw [totalCycles_append, notices_append, List.length_append, h, h']
  omega

theorem Cost.charge_cons {internal : Nat} {events : List BusEvent} (h : Cost internal events)
    (cycles : Nat) : Cost (cycles + internal) (.charge cycles :: events) := by
  have hcharge : Cost cycles [.charge cycles] := rfl
  exact hcharge.append h

end BusEvent

/-- A branch gives notice of where it leads. -/
theorem Cpu.notices_branchEvents (cpu : Cpu) (address : Word) :
    BusEvent.notices (cpu.branchEvents address) =
      [(cpu.instructionSet.align address, cpu.instructionSet)] := rfl

/-- The two cycles of a branch are those of its notice. -/
theorem Cpu.cost_branchEvents (cpu : Cpu) (address : Word) :
    BusEvent.Cost 0 (cpu.branchEvents address) := rfl

/-! ### Cycles of a computation -/

variable {α β : Type} {c : Cpu} {n : Nat}

/-- What passes in a computation besides its branches, wherever it comes to its end. -/
@[reducible] def CpuM.Costs (c : Cpu) (x : CpuM α) (n : Nat) : Prop :=
  Yields c x fun events _ _ => BusEvent.Cost n events

@[inherit_doc CpuM.Costs]
def StepM.Costs (c : Cpu) (x : StepM α) (n : Nat) : Prop :=
  Ends c x fun events _ _ => BusEvent.Cost n events

namespace CpuM

theorem costs_pure (a : α) : Costs c (pure a : CpuM α) 0 := BusEvent.cost_nil

theorem costs_charge_bind {cycles : Nat} {f : Unit → CpuM β} (h : Costs c (f ()) 0) :
    Costs c (charge cycles >>= f) cycles :=
  yields_charge_bind (BusProgram.Yields.mono h fun _ _ hc => hc.charge_cons cycles)

theorem costs_writeRegister_bind {register : Register} {value : Word} {f : Unit → CpuM β}
    (h : ∀ d, Costs d (f ()) n) : Costs c (writeRegister register value >>= f) n :=
  yields_silent_bind (yields_writeRegister register value) fun _ => h _

theorem costs_branchTo (address : Word) : Costs c (branchTo address) 0 :=
  yields_branchTo (c.cost_branchEvents address)

theorem costs_branchExchange (address : Word) : Costs c (branchExchange address) 0 :=
  yields_modify_bind (costs_branchTo address)

theorem costs_writeOrBranch (register : Register) (value : Word) :
    Costs c (writeOrBranch register value) 0 := by
  unfold writeOrBranch
  split_ifs
  · exact costs_branchTo value
  · exact yields_modify_bind (costs_pure _)

theorem costs_raise (exception : Exception) : Costs c (raise exception) 0 := by
  refine BusProgram.Yields.mono (yields_raise exception) ?_
  rintro _ _ ⟨rfl, -⟩
  exact Cpu.cost_branchEvents _ _

end CpuM

namespace StepM

theorem costs_pure (a : α) : Costs c (pure a : StepM α) 0 := ends_pure BusEvent.cost_nil

theorem costs_lift {x : CpuM α} (h : CpuM.Costs c x n) : Costs c (liftM x : StepM α) n :=
  ends_lift h

/-- What passes in a first part without cycles and then in a second. -/
theorem costs_bind {x : StepM α} {f : α → StepM β} (h : Costs c x 0)
    (k : ∀ a d, Costs d (f a) n) : Costs c (x >>= f) n := by
  refine ends_bind h fun events a d he => (k a d).mono fun more _ _ hm => ?_
  have hcost := he.append hm
  rwa [Nat.zero_add] at hcost

theorem costs_charge_bind {cycles : Nat} {f : Unit → StepM β} (h : Costs c (f ()) 0) :
    Costs c (liftM (CpuM.charge cycles) >>= f) cycles :=
  ends_charge_bind (h.mono fun _ _ _ hc => hc.charge_cons cycles)

theorem costs_charge_when {p : Prop} [Decidable p] {cycles : Nat} {f : Unit → StepM β}
    (h : Costs c (f ()) 0) :
    Costs c (if p then liftM (CpuM.charge cycles) >>= f else f ()) (if p then cycles else 0) := by
  split_ifs
  · exact costs_charge_bind h
  · exact h

theorem costs_read (width : Width) (address : Word) : Costs c (read width address) 0 := by
  rintro (reason | value)
  -- a read that fails does not come to its end
  · rintro _ ⟨⟩
  · exact fun _ _ => rfl

theorem costs_write (width : Width) (address : Word) (value : BitVec width.bits) :
    Costs c (write width address value) 0 := by
  rintro (reason | ⟨⟩)
  · rintro _ ⟨⟩
  · exact fun _ _ => rfl

end StepM

open StepM

/-! ### Cycles of an instruction -/

theorem DataProcessing.costs_execute (instruction : DataProcessing) :
    Costs c instruction.execute (if instruction.second.isByRegister then 1 else 0) := by
  unfold execute
  refine costs_charge_when (ends_get_bind ?_)
  dsimp only
  split_ifs
  · exact ends_modify_bind (costs_pure _)
  · refine ends_restorePsr_bind (fun _ => ?_) fun psr _ => ?_
    · exact costs_lift (CpuM.costs_branchTo _)
    · exact costs_lift (CpuM.costs_branchTo _)
  · exact costs_lift (CpuM.costs_branchTo _)
  · exact ends_modify_bind (ends_modify_bind (costs_pure _))
  · exact ends_modify_bind (costs_pure _)

theorem costs_readStatus (saved : Bool) (destination : Register) :
    CpuM.Costs c (readStatus saved destination) 0 := by
  have hwrite (value : Word) :
      CpuM.Costs c (CpuM.writeRegister destination value >>= fun _ => pure Flow.next) 0 :=
    CpuM.costs_writeRegister_bind fun _ => CpuM.costs_pure _
  unfold readStatus
  refine CpuM.yields_get_bind ?_
  dsimp only
  split_ifs
  · cases c.spsr? with
    | some word => exact hwrite word
    | none => exact CpuM.yields_note_bind (hwrite _)
  · exact hwrite _

theorem StatusWrite.costs_execute (write : StatusWrite) : Costs c write.execute 0 := by
  unfold execute
  refine ends_get_bind ?_
  dsimp only
  split_ifs
  · cases c.spsr? with
    | some word => exact ends_set_bind (costs_pure _)
    | none => exact ends_note_bind (costs_pure _)
  · exact ends_installPsrWord_bind fun psr _ => costs_pure _

/-- A multiplication takes a cycle for each byte of its multiplier, and one for an addend. -/
theorem Multiply.cycles_eq (operation : Multiply) (cpu : Cpu) :
    operation.cycles cpu = Multiplier.length (cpu.read operation.multiplier) true +
      if operation.addend.isSome then 1 else 0 := by
  unfold cycles
  rw [Multiplier.cycles_eq_length]
  cases operation.addend <;> rfl

theorem Multiply.costs_execute (operation : Multiply) :
    CpuM.Costs c operation.execute (Multiplier.length (c.read operation.multiplier) true +
      if operation.addend.isSome then 1 else 0) := by
  rw [← operation.cycles_eq c]
  unfold execute
  refine CpuM.yields_get_bind (CpuM.costs_charge_bind ?_)
  refine CpuM.costs_writeRegister_bind fun d => ?_
  split_ifs
  · exact CpuM.yields_modify_bind (CpuM.costs_pure _)
  · exact CpuM.costs_pure _

/-- A long multiplication takes a cycle for each byte of its multiplier and one more, and one more
again for an accumulation. -/
theorem LongMultiply.cycles_eq (operation : LongMultiply) (cpu : Cpu) :
    operation.cycles cpu =
      Multiplier.length (cpu.read operation.multiplier) operation.signed +
        if operation.accumulate then 2 else 1 := by
  unfold cycles
  rw [Multiplier.cycles_eq_length]
  cases operation.accumulate <;> rfl

theorem LongMultiply.costs_execute (operation : LongMultiply) :
    CpuM.Costs c operation.execute
      (Multiplier.length (c.read operation.multiplier) operation.signed +
        if operation.accumulate then 2 else 1) := by
  rw [← operation.cycles_eq c]
  unfold execute
  refine CpuM.yields_get_bind (CpuM.costs_charge_bind ?_)
  refine CpuM.costs_writeRegister_bind fun d => CpuM.costs_writeRegister_bind fun e => ?_
  split_ifs
  · exact CpuM.yields_modify_bind (CpuM.costs_pure _)
  · exact CpuM.costs_pure _

theorem LoadFormat.costs_load (format : LoadFormat) (address : Word) :
    Costs c (format.load address) 0 := by
  have hread (width : Width) (address : Word) (f : BitVec width.bits → Word) :
      Costs c (do return f (← StepM.read width address)) 0 :=
    costs_bind (costs_read width address) fun _ _ => costs_pure _
  unfold load
  cases format with
  | signedHalfword =>
    dsimp only
    split_ifs
    · exact hread .byte _ _
    · exact hread .halfword _ _
  | byte => exact hread .byte _ _
  | halfword => exact hread .halfword _ _
  | word => exact hread .word _ _
  | signedByte => exact hread .byte _ _

theorem SingleTransfer.costs_executeAt (transfer : SingleTransfer) (base offset : Word) :
    Costs c (transfer.executeAt base offset) transfer.access.internalCycles := by
  unfold executeAt
  dsimp only
  cases transfer.access with
  | load format =>
    -- the word goes to its register in the same way with and without write-back
    have hdata (value : Word) (d : Cpu) :
        Costs d (if transfer.data = .pc ∧ format = .word then
          liftM (CpuM.branchExchange value)
            else liftM (CpuM.writeOrBranch transfer.data value)) 0 := by
      split_ifs
      · exact costs_lift (CpuM.costs_branchExchange value)
      · exact costs_lift (CpuM.costs_writeOrBranch _ value)
    refine costs_bind (format.costs_load _) fun value d => costs_charge_bind ?_
    exact ends_when (fun _ => ends_modify_bind (hdata value _)) (hdata value d)
  | store width =>
    refine ends_get_bind (costs_bind (costs_write _ _ _) fun _ d => ?_)
    exact ends_when (fun _ => ends_modify_bind (costs_pure _)) (costs_pure _)

theorem SingleTransfer.costs_execute (transfer : SingleTransfer) :
    Costs c transfer.execute transfer.access.internalCycles :=
  ends_get_bind (transfer.costs_executeAt _ _)

theorem Swap.costs_execute (swap : Swap) : Costs c swap.execute 1 := by
  have hexchange (address new : Word) : Costs c (exchange swap.byte address new) 0 := by
    unfold exchange
    split_ifs
    all_goals
      refine costs_bind (costs_read _ _) fun old d => ?_
      exact costs_bind (costs_write _ _ _) fun _ _ => costs_pure _
  refine ends_get_bind (costs_bind (hexchange _ _) fun old d => ?_)
  exact costs_charge_bind (costs_lift (CpuM.costs_writeOrBranch _ old))

namespace BlockTransfer

theorem costs_loadWords (write : Register → Word → Cpu → Cpu) (registers : List Register)
    (address : Word) : Costs c (loadWords write registers address) 0 := by
  -- for every address and processor, which change from word to word
  induction registers generalizing c address with
  | nil => exact costs_pure ()
  | cons register rest ih =>
    exact costs_bind (costs_read _ _) fun word d => ends_modify_bind (ih _)

theorem costs_storeWords (value : Register → Word) (registers : List Register) (address : Word) :
    Costs c (storeWords value registers address) 0 := by
  induction registers generalizing c address with
  | nil => exact costs_pure ()
  | cons register rest ih => exact costs_bind (costs_write _ _ _) fun _ d => ih _

theorem costs_executeLoad (transfer : BlockTransfer) (base : Word) :
    Costs c (transfer.executeLoad base) 1 := by
  unfold executeLoad
  refine ends_checkRestore_when (costs_bind (costs_loadWords _ _ _) fun _ d => ?_)
  by_cases hpc : transfer.lists .pc = true
  · rw [if_pos hpc]
    -- the last word goes to the program counter, before the status is restored
    refine costs_bind (costs_read _ _) fun target e => costs_charge_bind (ends_modify_bind ?_)
    refine ends_when (fun _ => ?_) (costs_lift (CpuM.costs_branchTo target))
    refine ends_restorePsr_bind (fun _ => ?_) fun psr _ => ?_
    · exact costs_lift (CpuM.costs_branchTo target)
    · exact costs_lift (CpuM.costs_branchTo target)
  · rw [if_neg hpc]
    exact costs_charge_bind (ends_modify_bind (costs_pure _))

theorem costs_executeStore (transfer : BlockTransfer) (base : Word) :
    Costs c (transfer.executeStore base) 0 := by
  unfold executeStore
  refine ends_get_bind (costs_bind (costs_storeWords _ _ _) fun _ d => ?_)
  exact ends_when (fun _ => ends_modify_bind (costs_pure _)) (costs_pure _)

theorem costs_execute (transfer : BlockTransfer) :
    Costs c transfer.execute (if transfer.load then 1 else 0) := by
  unfold execute
  refine ends_get_bind ?_
  split_ifs
  · exact transfer.costs_executeLoad _
  · exact transfer.costs_executeStore _

end BlockTransfer

/-! ### Cycles of an opcode -/

theorem costs_softwareInterrupt :
    Costs c (do
      CpuM.raise .softwareInterrupt
      return Flow.jump) 0 :=
  costs_bind (costs_lift (CpuM.costs_raise _)) fun _ _ => costs_pure _

/-- The internal cycles of an instruction are those of the table. -/
theorem ArmInstruction.costs_execute (instruction : ArmInstruction) :
    Costs c instruction.execute (instruction.internalCycles c) := by
  cases instruction with
  | dataProcessing instruction => exact instruction.costs_execute
  | readStatus saved destination => exact costs_lift (costs_readStatus saved destination)
  | writeStatus write => exact write.costs_execute
  | multiply operation => exact costs_lift operation.costs_execute
  | multiplyLong operation => exact costs_lift operation.costs_execute
  | swap operation => exact operation.costs_execute
  | branchExchange target => exact ends_get_bind (costs_lift (CpuM.costs_branchExchange _))
  | singleTransfer transfer => exact transfer.costs_execute
  | blockTransfer transfer => exact transfer.costs_execute
  | branch link offset =>
    refine costs_lift (CpuM.yields_get_bind ?_)
    split_ifs
    · exact CpuM.yields_modify_bind (CpuM.costs_branchTo _)
    · exact CpuM.costs_branchTo _
  | softwareInterrupt comment => exact costs_softwareInterrupt

namespace ThumbInstruction

theorem costs_writeResult (destination : LowRegister) (result : AluResult) :
    CpuM.Costs c (writeResult destination result) 0 :=
  CpuM.yields_modify_bind (CpuM.costs_pure _)

theorem costs_finish (operation : AluOperation) (destination : LowRegister) (result : AluResult) :
    CpuM.Costs c (finish operation destination result) 0 := by
  unfold finish
  split_ifs
  · exact CpuM.yields_modify_bind (CpuM.costs_pure _)
  · exact costs_writeResult _ _

theorem costs_executeAlu (operation : RegisterOperation) (source destination : LowRegister) :
    CpuM.Costs c (executeAlu operation source destination)
      (internalCycles c (.alu operation source destination)) := by
  refine CpuM.yields_get_bind ?_
  cases operation with
  | process operation => exact costs_finish _ _ _
  | shift kind => exact CpuM.costs_charge_bind (costs_writeResult _ _)
  | negate => exact costs_writeResult _ _
  | multiply => exact Multiply.costs_execute _

theorem costs_executeHigh (operation : HighOperation) (source destination : Register) :
    CpuM.Costs c (executeHigh operation source destination) 0 := by
  refine CpuM.yields_get_bind ?_
  cases operation with
  | add => exact CpuM.costs_writeOrBranch _ _
  | compare => exact CpuM.yields_modify_bind (CpuM.costs_pure _)
  | move => exact CpuM.costs_writeOrBranch _ _
  | exchange => exact CpuM.costs_branchExchange _

/-- A load bit that selects the access decides its cycles. -/
theorem internalCycles_ofWord (load : Bool) :
    (Access.ofWord load).internalCycles = if load then 1 else 0 := by
  cases load <;> rfl

theorem internalCycles_immediateAccess (width : Width) (load : Bool) :
    (immediateAccess width load).internalCycles = if load then 1 else 0 := by
  cases width <;> cases load <;> rfl

@[inherit_doc ArmInstruction.costs_execute]
theorem costs_execute (instruction : ThumbInstruction) :
    Costs c instruction.execute (instruction.internalCycles c) := by
  cases instruction with
  | shiftedMove kind amount source destination =>
    exact ends_get_bind (costs_lift (costs_writeResult _ _))
  | addSubtract subtract operand source destination =>
    exact ends_get_bind (costs_lift (costs_writeResult _ _))
  | immediate operation destination value =>
    exact ends_get_bind (costs_lift (costs_finish _ _ _))
  | alu operation source destination => exact costs_lift (costs_executeAlu _ _ _)
  | highRegister operation source destination => exact costs_lift (costs_executeHigh _ _ _)
  | pcRelativeLoad data offset => exact ends_get_bind (SingleTransfer.costs_executeAt _ _ _)
  | registerOffset access data base offset => exact SingleTransfer.costs_execute _
  | immediateOffset width load data base offset =>
    -- the table has the load bit, the transfer its access
    have h : Costs c (immediateOffset width load data base offset).execute
        (immediateAccess width load).internalCycles := SingleTransfer.costs_execute _
    rwa [internalCycles_immediateAccess] at h
  | spRelative load data offset =>
    have h : Costs c (spRelative load data offset).execute (Access.ofWord load).internalCycles :=
      SingleTransfer.costs_execute _
    rwa [internalCycles_ofWord] at h
  | loadAddress fromSp destination offset => exact ends_get_bind (ends_set_bind (costs_pure _))
  | adjustStack subtract amount => exact ends_get_bind (ends_set_bind (costs_pure _))
  | push extra list => exact BlockTransfer.costs_execute _
  | pop extra list => exact BlockTransfer.costs_execute _
  | multiple load base list => exact BlockTransfer.costs_execute _
  | conditionalBranch condition offset =>
    refine ends_get_bind ?_
    split_ifs
    · exact costs_lift (CpuM.costs_branchTo _)
    · exact costs_pure _
  | softwareInterrupt comment => exact costs_softwareInterrupt
  | branch offset => exact ends_get_bind (costs_lift (CpuM.costs_branchTo _))
  | callFirst offset => exact ends_modify_bind (costs_pure _)
  | callSecond offset => exact ends_get_bind (ends_set_bind (costs_lift (CpuM.costs_branchTo _)))

end ThumbInstruction

/-- An opcode takes one cycle besides those of its instruction, which only a condition that holds
brings about. -/
theorem Opcode.costs_execute (opcode : Opcode) :
    Costs c opcode.execute (1 + opcode.internalCycles c) := by
  -- moving on to the next instruction takes no cycles
  have hproceed (set : InstructionSet) (x : StepM Flow) {n : Nat} (h : Costs c x n) :
      Costs c (do proceed set (← x)) n := by
    refine ends_bind h fun events flow d hc => ?_
    cases flow with
    | next | jump =>
      rintro _ ⟨⟩
      rwa [List.append_nil]
  cases opcode with
  | arm word =>
    refine ends_charge_bind (ends_get_bind ?_)
    dsimp only
    split_ifs with hc
    · refine ends_note_bind ?_
      -- an opcode that is refused does not come to its end
      cases hi : ArmInstruction.ofOpcode? word with
      | none => exact ends_throw
      | some instruction =>
        dsimp only
        cases instruction.refusal? with
        | some reason => exact ends_throw
        | none =>
          rw [internalCycles_arm hc hi]
          exact (hproceed .arm _ instruction.costs_execute).mono fun _ _ _ h => h.charge_cons 1
    -- the opcode is passed over, and the table has no cycles for it
    · have hnone : (arm word).internalCycles c = 0 := if_neg hc
      refine ends_note_bind ?_
      rintro _ ⟨⟩
      rw [hnone]
      exact BusEvent.cost_nil.charge_cons 1
  | thumb halfword =>
    refine ends_charge_bind (ends_get_bind (ends_note_bind ?_))
    cases hi : ThumbInstruction.ofOpcode? halfword with
    | none => exact ends_throw
    | some instruction =>
      dsimp only
      cases instruction.refusal? with
      | some reason => exact ends_throw
      | none =>
        rw [internalCycles_thumb hi]
        exact (hproceed .thumb _ instruction.costs_execute).mono fun _ _ _ h => h.charge_cons 1

/-- An ARM opcode whose condition does not hold takes a cycle and a log record. -/
theorem run_executeArm_of_not_holds {opcode : Word}
    (hc : (ArmInstruction.condition opcode).holds c.cpsr.flags = false) :
    (executeArm opcode).run.run c =
      .request (.charge 1) fun _ => .note
        (.skips c.fetchAddress opcode (ArmInstruction.condition opcode))
        (.pure (.ok (), c.advanced .arm)) := by
  unfold executeArm
  change BusProgram.request (.charge 1) _ = _
  refine congrArg _ (funext fun _ => ?_)
  change (ite _ _ _ : StepM Unit).run.run c = _
  rw [if_neg (Bool.eq_false_iff.1 hc)]
  rfl

/-! ### Notices of an opcode -/

variable {opcode : Opcode} {allows : Effect → Prop} {events : List BusEvent} {flow : Flow}
  {d : Cpu}

/-- An instruction gives notice of its branch and of nothing else. -/
theorem InstructionEnd.notices_eq (h : InstructionEnd allows c events flow d) :
    BusEvent.notices events =
      if flow = .jump then [(d.fetchAddress, d.instructionSet)] else [] := by
  cases h with
  | next hq | status hq | saved hq => exact BusEvent.notices_eq_nil hq
  | @jump before e hq h address =>
    -- nothing is noticed before the branch, and the branch leads to where the processor now stands
    rw [BusEvent.notices_append, BusEvent.notices_eq_nil hq, List.nil_append,
      Cpu.notices_branchEvents, e.fetchAddress_branched]
    rfl

theorem OpcodeEnd.notices_eq (h : OpcodeEnd opcode c events d) :
    BusEvent.notices events = [] ∨
      BusEvent.notices events = [(d.fetchAddress, d.instructionSet)] := by
  cases h with
  | skipped h => exact .inl rfl
  | next h => exact .inl h.notices_eq
  | jump h => exact .inr h.notices_eq

open BusEvent

/-- **Every cycle is accounted for.**  An opcode of either instruction set that comes to its end
gives notice of no branch or of one, which is where it goes on and in which instruction set, and it
takes one cycle, the internal cycles of its instruction and two cycles for the notice.  If its
condition does not hold, it does come to its end, with one cycle as its only request, and moves the
program counter on by a word. -/
theorem cycles_of_execute (opcode : Opcode) (c : Cpu) {σ : Type} (bus : Bus σ) (state : σ) :
    let run := opcode.execute.runOn bus c state
    let ended := run.value.2
    (run.value.1 = .ok () →
      (notices run.events = [] ∨
        notices run.events = [(ended.fetchAddress, ended.instructionSet)]) ∧
      totalCycles run.events = 1 + opcode.internalCycles c + 2 * (notices run.events).length) ∧
    (opcode.holds c.cpsr.flags = false →
      run.value = (.ok (), { c with pc := c.pc + 4 }) ∧ run.events = [.charge 1]) := by
  intro run ended
  refine ⟨fun hok => ⟨?_, ?_⟩, fun hc => ?_⟩
  · exact (opcode.ends_execute.run hok).notices_eq
  · exact opcode.costs_execute.run hok
  · cases opcode with
    -- only ARM opcodes have a condition
    | thumb halfword => nomatch hc
    | arm word =>
      have hrun : run = ((executeArm word).run.run c).run bus state := rfl
      rw [hrun, run_executeArm_of_not_holds hc]
      exact ⟨rfl, rfl⟩

/-- A long accumulation by a multiplier of two bytes and a sign takes five cycles, a move into the
program counter with a shift by a register takes four with its branch, and the same move takes one
when its condition does not hold. -/
theorem cycles_of_execute_accumulate :
    let start := Cpu.reset.write .sp 0xFFFF8000
    let run (opcode : Word) :=
      (Opcode.arm opcode).execute.runOn Memory.bus start { regions := [] }
    (run 0xE0E32D90).value.1 = .ok () ∧ totalCycles (run 0xE0E32D90).events = 5 ∧
      (run 0xE1A0FD10).value.1 = .ok () ∧ notices (run 0xE1A0FD10).events = [(0, .arm)] ∧
      totalCycles (run 0xE1A0FD10).events = 4 ∧
      Opcode.holds start.cpsr.flags (.arm 0x01A0FD10) = false ∧
      (run 0x01A0FD10).events = [.charge 1] := by
  intro start run
  have haccumulate := cycles_of_execute (.arm 0xE0E32D90) start Memory.bus { regions := [] }
  have hmove := cycles_of_execute (.arm 0xE1A0FD10) start Memory.bus { regions := [] }
  have hskip := cycles_of_execute (.arm 0x01A0FD10) start Memory.bus { regions := [] }
  -- the multiplier takes two of the four cycles, and the accumulation the others
  have hlength : (Opcode.arm 0xE0E32D90).internalCycles start = 4 := by
    have hcycles : (ArmInstruction.ofMultiplyLong 0xE0E32D90).cycles start = 4 := by decide
    rw [Opcode.internalCycles_arm rfl rfl]
    exact (LongMultiply.cycles_eq _ start).symm.trans hcycles
  obtain ⟨-, hfive⟩ := haccumulate.1 rfl
  obtain ⟨-, hfour⟩ := hmove.1 rfl
  refine ⟨rfl, ?_, rfl, by decide, hfour, rfl, (hskip.2 rfl).2⟩
  rw [hlength] at hfive
  exact hfive

end Armv4t

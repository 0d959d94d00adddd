import Armv4t.Config
import Armv4t.Proofs.RegisterFile
import Armv4t.Proofs.Value

/-!
# Configurations

What is read from a written configuration, and the processor that it powers up.

A `Config.Choice` has values for some of the fields of a configuration, and within the stack
pointers for some of the banks.  The values that a configuration is read from are the written forms
of the choices, and what is read has the defaults in all fields that are not chosen
(`Config.ofValue?_eq_some_iff`).

A processor that has just powered up holds the stack pointer of each bank and is zero otherwise
(`Cpu.HoldsOnly`).  The stack pointer of its own mode lies both in the view and in the stored
copies, which only a change of mode tells apart; a change of status keeps what the processor holds,
and so does every sequence of them (`ensures_performWrites_status`).

Main statement: **a configuration is read field by field and sets up every bank**
(`configuration_boots_every_bank`).
-/

namespace Armv4t

/-! ### Stack pointers -/

/-- The values of the banks that have one, and for the others those of another collection. -/
def Banked.getD {α : Type} (values : Banked (Option α)) (default : Banked α) : Banked α where
  user := values.user.getD default.user
  fiq := values.fiq.getD default.fiq
  irq := values.irq.getD default.irq
  supervisor := values.supervisor.getD default.supervisor
  abort := values.abort.getD default.abort
  undefined := values.undefined.getD default.undefined

namespace StackPointers

/-- Stack pointers of some banks. -/
abbrev Choice := Banked (Option Word)

/-- The chosen stack pointers, with the defaults of the other banks. -/
def Choice.pointers (choice : Choice) : StackPointers :=
  Banked.getD choice StackPointers.zero

/-- A value is a written form of the chosen stack pointers. -/
def Choice.IsWritten (choice : Choice) (value : Value) : Prop :=
  value.GivesSome Bank.fieldNames (choice.toList.map (Option.map Value.ofWord))

/-- The chosen stack pointers as a record that has no others. -/
def Choice.toValue (choice : Choice) : Value :=
  .object ((Bank.fieldNames.zip (choice.toList.map (Option.map Value.ofWord))).filterMap
    Value.memberOf)

theorem Choice.isWritten_toValue (choice : Choice) : choice.IsWritten choice.toValue :=
  Value.givesSome_object rfl

theorem Choice.toList_pointers (choice : Choice) :
    choice.pointers.toList = choice.toList.map (·.getD 0) := rfl

theorem nodup_fieldNames : Bank.fieldNames.Nodup := by
  decide

/-- Stack pointers are read from the written forms of choices, with the defaults in the rest. -/
theorem ofValue?_eq_some_iff (value : Value) (pointers : StackPointers) :
    ofValue? value = some pointers ↔
      ∃ choice : Choice, choice.IsWritten value ∧ choice.pointers = pointers := by
  have hword := Value.reads_word.read_eq_some_iff
  constructor
  · intro h
    obtain ⟨fields, hfields, hread⟩ := Option.bind_eq_some_iff.1 h
    obtain ⟨words, hwords, hpointers⟩ := Option.bind_eq_some_iff.1 hread
    rw [Value.fields?_eq_some_iff_givesSome nodup_fieldNames] at hfields
    obtain ⟨given, rfl, rfl⟩ := (Value.mapM_orDefault_eq_some_iff hword).1 hwords
    rw [Banked.ofList?_eq_some_iff] at hpointers
    -- there is one given field for each word, and so one for each bank
    have hlength : given.length = 6 := by
      have hwords := congrArg List.length hpointers
      rwa [List.length_map] at hwords
    obtain ⟨choice, rfl⟩ := Banked.length_eq_iff.1 hlength
    refine ⟨choice, hfields, ?_⟩
    rw [← Choice.toList_pointers, ← Banked.ofList?_eq_some_iff, Banked.ofList?_toList] at hpointers
    exact Option.some.inj hpointers
  · rintro ⟨choice, hwritten, rfl⟩
    have hfields := (Value.fields?_eq_some_iff_givesSome nodup_fieldNames).2 hwritten
    have hwords : (choice.toList.map (Option.map Value.ofWord)).mapM
        (Value.orDefault 0 Value.word?) = some choice.pointers.toList :=
      (Value.mapM_orDefault_eq_some_iff hword).2 ⟨choice.toList, rfl, choice.toList_pointers.symm⟩
    unfold ofValue?
    rw [hfields, Option.bind_eq_bind, Option.bind_some, hwords, Option.bind_eq_bind,
      Option.bind_some, Banked.ofList?_toList]

end StackPointers

/-! ### Configurations -/

namespace Config

/-- Values for some of the fields of a configuration. -/
structure Choice where
  entryPoint : Option Word
  mode : Option Mode
  instructionSet : Option InstructionSet
  irqDisabled : Option Bool
  fiqDisabled : Option Bool
  stackPointers : Option StackPointers.Choice

/-- The configuration with the chosen values, and with the defaults in the other fields. -/
def Choice.config (choice : Choice) : Config where
  entryPoint := choice.entryPoint.getD default.entryPoint
  mode := choice.mode.getD default.mode
  instructionSet := choice.instructionSet.getD default.instructionSet
  irqDisabled := choice.irqDisabled.getD default.irqDisabled
  fiqDisabled := choice.fiqDisabled.getD default.fiqDisabled
  stackPointers := (choice.stackPointers.map (·.pointers)).getD default.stackPointers

/-- A value is a written form of the chosen fields. -/
def Choice.IsWritten (choice : Choice) (value : Value) : Prop :=
  ∃ modeField setField pointersField,
    Option.Rel (fun mode field => field.Spells mode.name) choice.mode modeField ∧
    Option.Rel (fun set field => field.Spells set.name) choice.instructionSet setField ∧
    Option.Rel (fun pointers field => pointers.IsWritten field) choice.stackPointers pointersField ∧
    value.GivesSome fieldNames
      [choice.entryPoint.map .ofWord, modeField, setField, choice.irqDisabled.map .bool,
        choice.fiqDisabled.map .bool, pointersField]

/-- The chosen fields as a record that has no others. -/
def Choice.toValue (choice : Choice) : Value :=
  .object ((fieldNames.zip
    [choice.entryPoint.map .ofWord, choice.mode.map (.string ·.name),
      choice.instructionSet.map (.string ·.name), choice.irqDisabled.map .bool,
      choice.fiqDisabled.map .bool, choice.stackPointers.map (·.toValue)]).filterMap Value.memberOf)

/-- Every choice has a written form. -/
theorem Choice.isWritten_toValue (choice : Choice) : choice.IsWritten choice.toValue := by
  refine ⟨_, _, _, ?_, ?_, ?_, Value.givesSome_object rfl⟩
  · exact Value.rel_map fun _ => .inl rfl
  · exact Value.rel_map fun _ => .inl rfl
  · exact Value.rel_map StackPointers.Choice.isWritten_toValue

/-- The choice of all fields of a configuration. -/
def choice (config : Config) : Choice where
  entryPoint := some config.entryPoint
  mode := some config.mode
  instructionSet := some config.instructionSet
  irqDisabled := some config.irqDisabled
  fiqDisabled := some config.fiqDisabled
  stackPointers := some (config.stackPointers.map some)

theorem nodup_fieldNames : fieldNames.Nodup := by
  decide

/-- Configurations are read from the written forms of choices, with the defaults in the rest. -/
theorem ofValue?_eq_some_iff (value : Value) (config : Config) :
    ofValue? value = some config ↔
      ∃ choice : Choice, choice.IsWritten value ∧ choice.config = config := by
  -- how each kind of field is read
  have hword := Value.reads_word.read_eq_some_iff
  have hbool := Value.bool?_eq_some_iff
  have hmode (value : Value) (mode : Mode) :
      value.name?.bind Mode.ofName? = some mode ↔ value.Spells mode.name :=
    Value.bind_name?_eq_some_iff (fun _ _ => Mode.ofName?_eq_some_iff) value mode
  have hset (value : Value) (set : InstructionSet) :
      value.name?.bind InstructionSet.ofName? = some set ↔ value.Spells set.name :=
    Value.bind_name?_eq_some_iff (fun _ _ => InstructionSet.ofName?_eq_some_iff) value set
  have hpointers := StackPointers.ofValue?_eq_some_iff
  unfold ofValue?
  constructor
  · intro h
    split at h
    · next entryField modeField setField irqField fiqField pointersField hfields =>
      simp only [Option.bind_eq_bind, Option.bind_eq_some_iff, Option.pure_def,
        Option.some.injEq] at h
      -- each of the six fields is absent, and has its default, or is written
      obtain ⟨a, ha, b, hb, c, hc, d, hd, e, he, f, hf, rfl⟩ := h
      obtain ⟨entry, rfl, rfl⟩ := (Value.orDefault_eq_some_iff_write hword).1 ha
      obtain ⟨mode, hspells, rfl⟩ := (Value.orDefault_eq_some_iff hmode).1 hb
      obtain ⟨set, hspells', rfl⟩ := (Value.orDefault_eq_some_iff hset).1 hc
      obtain ⟨irq, rfl, rfl⟩ := (Value.orDefault_eq_some_iff_write hbool).1 hd
      obtain ⟨fiq, rfl, rfl⟩ := (Value.orDefault_eq_some_iff_write hbool).1 he
      obtain ⟨pointers, hwritten, rfl⟩ := (Value.orDefault_eq_some_iff_view hpointers).1 hf
      rw [Value.fields?_eq_some_iff_givesSome nodup_fieldNames] at hfields
      exact ⟨⟨entry, mode, set, irq, fiq, pointers⟩,
        ⟨modeField, setField, pointersField, hspells, hspells', hwritten, hfields⟩, rfl⟩
    · nomatch h
  · rintro ⟨choice, ⟨modeField, setField, pointersField, hm, hs, hp, hgives⟩, rfl⟩
    -- conversely, the choice gives each field its reading
    rw [(Value.fields?_eq_some_iff_givesSome nodup_fieldNames).2 hgives]
    dsimp only
    rw [(Value.orDefault_eq_some_iff_write hword).2 ⟨choice.entryPoint, rfl, rfl⟩,
      (Value.orDefault_eq_some_iff hmode).2 ⟨choice.mode, hm, rfl⟩,
      (Value.orDefault_eq_some_iff hset).2 ⟨choice.instructionSet, hs, rfl⟩,
      (Value.orDefault_eq_some_iff_write hbool).2 ⟨choice.irqDisabled, rfl, rfl⟩,
      (Value.orDefault_eq_some_iff_write hbool).2 ⟨choice.fiqDisabled, rfl, rfl⟩,
      (Value.orDefault_eq_some_iff_view hpointers).2 ⟨choice.stackPointers, hp, rfl⟩]
    rfl

/-- A configuration is read back from its written form, which has all fields. -/
theorem ofValue?_toValue (config : Config) : ofValue? config.toValue = some config :=
  (ofValue?_eq_some_iff _ config).2 ⟨config.choice, config.choice.isWritten_toValue, rfl⟩

/-! ### The status and the program counter -/

/-- The status of a processor that powers up has the mode, the instruction set and the masks, and no
other bit. -/
theorem toWord_psr (config : Config) :
    config.psr.toWord = (BitVec.ofBool config.irqDisabled ++ BitVec.ofBool config.fiqDisabled ++
      BitVec.ofBool (config.instructionSet == .thumb) ++ config.mode.bits).setWidth 32 := by
  apply BitVec.eq_of_getLsbD_eq
  intro i hi
  simp only [Psr.toWord, psr, BitVec.getLsbD_append, BitVec.getLsbD_setWidth]
  grind

end Config

/-- A program counter that is aligned ahead of an address shows where the instruction is. -/
theorem InstructionSet.align_add_lookahead_sub (set : InstructionSet) (address : Word) :
    set.align (address + set.lookahead) - set.lookahead = set.align address := by
  apply BitVec.eq_of_toNat_eq
  have hlt := address.isLt
  have hsize : set.lookahead.toNat = 2 * set.width.bytes := by
    cases set <;> rfl
  show (set.width.align (address + set.lookahead) - set.lookahead).toNat =
    (set.width.align address).toNat
  rw [BitVec.toNat_sub, Width.toNat_align, BitVec.toNat_add, hsize, Width.toNat_align]
  -- both sides wrap around at the same multiple of the size
  cases set <;> simp only [InstructionSet.width, Width.bytes] <;> omega

theorem Cpu.toNat_fetchAddress_ofConfig (config : Config) :
    let size := config.instructionSet.width.bytes
    (Cpu.ofConfig config).fetchAddress.toNat = config.entryPoint.toNat / size * size := by
  have haddress : (Cpu.ofConfig config).fetchAddress =
      config.instructionSet.align config.entryPoint :=
    config.instructionSet.align_add_lookahead_sub config.entryPoint
  show _ = config.entryPoint.toNat / config.instructionSet.width.bytes *
    config.instructionSet.width.bytes
  rw [haddress, Nat.div_mul_self_eq_mod_sub_self]
  exact Width.toNat_align config.instructionSet.width config.entryPoint

/-! ### The registers -/

/-- Every mode sees the stack pointer of its bank, and otherwise zero in all registers but the
program counter; every saved status is zero. -/
structure Cpu.HoldsOnly (pointers : StackPointers) (cpu : Cpu) : Prop where
  sp (mode : Mode) : cpu.readIn mode .sp = pointers.get mode.bank
  low (mode : Mode) (position : LowRegister) : cpu.readIn mode (.low position) = 0
  high (mode : Mode) (position : Fin 5) : cpu.readIn mode (.high position) = 0
  lr (mode : Mode) : cpu.readIn mode .lr = 0
  spsrs (bank : Bank) : cpu.spsrs.get bank = 0

namespace Cpu

theorem holdsOnly_ofConfig (config : Config) :
    (ofConfig config).HoldsOnly config.stackPointers := by
  -- the copy of the current mode's bank equals the view
  have hstack (mode : Mode) :
      (ofConfig config).stackIn mode = ⟨config.stackPointers.get mode.bank, 0⟩ := by
    show (if mode.bank = config.mode.bank then _ else _) = _
    split_ifs with hbank
    · show StackPair.mk (config.stackPointers.get config.mode.bank) 0 = _
      rw [hbank]
    · exact Banked.get_map _ _ _
  have hhigh (mode : Mode) : (ofConfig config).highIn mode = .replicate 5 0 := by
    show (if mode = .fiq ↔ config.mode = .fiq then _ else if mode = .fiq then _ else _) = _
    split_ifs <;> rfl
  constructor
  · intro mode
    exact congrArg StackPair.sp (hstack mode)
  · intro mode position
    exact Vector.getElem_replicate position.isLt
  · intro mode position
    show ((ofConfig config).highIn mode).get position = 0
    rw [hhigh]
    exact Vector.getElem_replicate position.isLt
  · intro mode
    exact congrArg StackPair.lr (hstack mode)
  · intro bank
    exact Banked.get_replicate 0 bank

/-- A change of status moves no register. -/
theorem HoldsOnly.withPsr {pointers : StackPointers} {cpu : Cpu} (h : cpu.HoldsOnly pointers)
    (psr : Psr) : (cpu.withPsr psr).HoldsOnly pointers := by
  constructor
  · intro mode
    rw [readIn_withPsr, h.sp]
  · intro mode position
    rw [readIn_withPsr, h.low]
  · intro mode position
    rw [readIn_withPsr, h.high]
  · intro mode
    rw [readIn_withPsr, h.lr]
  · intro bank
    rw [spsrs_withPsr, h.spsrs]

end Cpu

/-- A word written to the status keeps what a processor holds, and is refused if it names no
mode. -/
theorem ensures_perform_status {pointers : StackPointers} {cpu : Cpu}
    (h : cpu.HoldsOnly pointers) (word : Word) :
    StepM.Ensures cpu (RegisterWrite.status word).perform fun _ ended =>
      ended.HoldsOnly pointers ∧ ended.cpsr = (Psr.ofWord? word).getD cpu.cpsr := by
  refine CpuM.Ensures.mono (StepM.ensures_installPsrWord word) ?_
  intro result d hd
  cases hword : Psr.ofWord? word with
  -- a word without a mode is refused, and the status stays
  | none =>
    rw [hword] at hd
    obtain ⟨-, rfl⟩ := hd
    exact ⟨h, rfl⟩
  | some psr =>
    rw [hword] at hd
    obtain ⟨-, rfl⟩ := hd
    exact ⟨h.withPsr psr, rfl⟩

/-- Every sequence of words written to the status keeps what a processor holds, by induction on the
sequence.  The status is then the one that the last word to name a mode is the form of. -/
theorem ensures_performWrites_status {pointers : StackPointers} {cpu : Cpu}
    (h : cpu.HoldsOnly pointers) (words : List Word) :
    CpuM.Ensures cpu (performWrites (words.map .status)) fun _ ended =>
      ended.HoldsOnly pointers ∧ ended.cpsr = (words.filterMap Psr.ofWord?).getLastD cpu.cpsr := by
  induction words generalizing cpu with
  | nil => exact CpuM.ensures_pure ⟨h, rfl⟩
  | cons word rest ih =>
    refine CpuM.ensures_bind (ensures_perform_status h word) ?_
    rintro result d ⟨hd, hcpsr⟩
    refine CpuM.ensures_bind (ih hd) ?_
    rintro results e ⟨he, hlast⟩
    refine CpuM.ensures_pure ⟨he, ?_⟩
    -- a refused word leaves the status to the words before it
    rw [hlast, hcpsr, List.filterMap_cons]
    cases Psr.ofWord? word with
    | none => rfl
    | some psr => exact List.getLastD_cons.symm

/-- **A configuration is read field by field and sets up every bank.**  It is read back from its
written form.  The values from which a configuration is read are the written forms of choices of its
fields, in a record or as a list, and the fields that are not chosen have their defaults.  The
processor that it powers up has its mode, instruction set and masks and no other bit in the status,
stands at its entry point rounded down to an instruction boundary, and holds the stack pointer of
each bank and zero otherwise, also after any words have been written to the status. -/
theorem configuration_boots_every_bank :
    (∀ config : Config, Config.ofValue? config.toValue = some config) ∧
    (∀ (value : Value) (config : Config), Config.ofValue? value = some config ↔
      ∃ choice : Config.Choice, choice.IsWritten value ∧ choice.config = config) ∧
    ∀ config : Config,
      let cpu := Cpu.ofConfig config
      let size := config.instructionSet.width.bytes
      (cpu.mode = config.mode ∧ cpu.instructionSet = config.instructionSet ∧
        cpu.cpsr.toWord = (BitVec.ofBool config.irqDisabled ++ BitVec.ofBool config.fiqDisabled ++
          BitVec.ofBool (config.instructionSet == .thumb) ++ config.mode.bits).setWidth 32) ∧
      cpu.fetchAddress.toNat = config.entryPoint.toNat / size * size ∧
      cpu.HoldsOnly config.stackPointers ∧
      ∀ (σ : Type) (bus : Bus σ) (state : σ) (words : List Word),
        let ended := (((performWrites (words.map .status)).run cpu).run bus state).value.2
        ended.HoldsOnly config.stackPointers ∧
          ended.cpsr = (words.filterMap Psr.ofWord?).getLastD cpu.cpsr := by
  refine ⟨Config.ofValue?_toValue, Config.ofValue?_eq_some_iff, ?_⟩
  intro config cpu size
  have hholds : cpu.HoldsOnly config.stackPointers := Cpu.holdsOnly_ofConfig config
  refine ⟨⟨rfl, rfl, config.toWord_psr⟩, Cpu.toNat_fetchAddress_ofConfig config, hholds, ?_⟩
  intro σ bus state words ended
  exact (ensures_performWrites_status hholds words).run bus state

/-- Two fields in a record beside an unknown one, the first of them a list of the leading stack
pointers. -/
example :
    let pointers : StackPointers := { StackPointers.zero with user := 0x03007F00 }
    Config.ofValue? (.object [("name", .string "boot"),
      ("stack_pointers", .array [.integer 0x03007F00, .integer 0]), ("mode", .string "System")]) =
      some { mode := .system, stackPointers := pointers } := by
  rfl

end Armv4t

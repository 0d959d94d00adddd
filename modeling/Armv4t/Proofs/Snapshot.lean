import Armv4t.Proofs.Value
import Armv4t.Snapshot
import Mathlib.Data.List.Forall2

/-!
# Reading snapshots

The values that give the fields of a snapshot are the written forms of its words
(`Snapshot.Parts.ofValue?_eq_some_iff`), and those words are a processor's if their status names a
mode (`Snapshot.ofValue_eq_ok_iff`).  Reading back a snapshot therefore yields the processor it was
taken of (`Snapshot.ofValue_toValue`).
-/

namespace Armv4t

namespace Snapshot

open Value

/-! ### The fields of a snapshot -/

theorem reads_stackPair :
    Reads (IsList 2 IsWord) stackPair? fun pair => .ofWords [pair.sp, pair.lr] := by
  apply reads_word.packed
  · intro values pair
    constructor
    -- exactly two words are read
    · intro h
      match values, h with
      | [sp, lr], h => rw [← Option.some.inj h]
    · rintro rfl
      rfl
  · intro values
    constructor
    · intro h
      match values, h with
      | [sp, lr], _ => exact ⟨⟨sp, lr⟩, rfl⟩
    · rintro ⟨pair, rfl⟩
      rfl

theorem reads_banked {α : Type} {form : Value → Prop} {read : Value → Option α}
    {write : α → Value} (h : Reads form read write) :
    Reads (IsList 6 form) (banked? read) fun values => .array (values.toList.map write) :=
  h.packed (fun _ _ => Banked.ofList?_eq_some_iff) fun _ => Banked.length_eq_iff

theorem reads_stackPairs :
    Reads (IsList 6 (IsList 2 IsWord)) (banked? stackPair?) fun pairs =>
      .array (pairs.toList.map fun pair => .ofWords [pair.sp, pair.lr]) :=
  reads_banked reads_stackPair

theorem reads_statuses :
    Reads (IsList 6 IsWord) (banked? word?) fun statuses => .ofWords statuses.toList :=
  reads_banked reads_word

/-- The fields of a snapshot as they are written. -/
def Parts.fields (parts : Parts) : List Value :=
  [.ofWords parts.registers.toList, .ofWords parts.commonHigh.toList,
    .ofWords parts.fiqHigh.toList,
    .array (parts.bankedStacks.toList.map fun pair => .ofWords [pair.sp, pair.lr]),
    .ofWords parts.spsrs.toList, .ofWord parts.cpsr]

/-- The words of a snapshot are read exactly from the values that give its fields. -/
theorem Parts.ofValue?_eq_some_iff {value : Value} {parts : Parts} :
    Parts.ofValue? value = some parts ↔ value.Gives fieldNames parts.fields := by
  rw [← fields?_eq_some_iff]
  unfold Parts.ofValue?
  constructor
  · intro h
    split at h
    · next registers commonHigh fiqHigh pairs spsrs cpsr hfields =>
      simp only [Option.bind_eq_bind, Option.bind_eq_some_iff, Option.pure_def,
        Option.some.injEq] at h
      -- each of the six fields is in its written form
      obtain ⟨a, hr, b, hc, c, hf, d, hp, e, hs, f, hw, rfl⟩ := h
      rw [(reads_words 16).read_eq_some_iff] at hr
      rw [(reads_words 5).read_eq_some_iff] at hc hf
      rw [reads_stackPairs.read_eq_some_iff] at hp
      rw [reads_statuses.read_eq_some_iff] at hs
      rw [reads_word.read_eq_some_iff] at hw
      rw [hfields, hr, hc, hf, hp, hs, hw]
      rfl
    · nomatch h
  · intro h
    rw [h]
    -- the other way, each field is read back from its form
    dsimp only [Parts.fields, List.map]
    rw [((reads_words 16).read_eq_some_iff _ parts.registers).2 rfl,
      ((reads_words 5).read_eq_some_iff _ parts.commonHigh).2 rfl,
      ((reads_words 5).read_eq_some_iff _ parts.fiqHigh).2 rfl,
      (reads_stackPairs.read_eq_some_iff _ parts.bankedStacks).2 rfl,
      (reads_statuses.read_eq_some_iff _ parts.spsrs).2 rfl,
      (reads_word.read_eq_some_iff _ parts.cpsr).2 rfl]
    rfl

/-- What each field of a snapshot looks like. -/
def forms : List (Value → Prop) :=
  [IsList 16 IsWord, IsList 5 IsWord, IsList 5 IsWord, IsList 6 (IsList 2 IsWord),
    IsList 6 IsWord, IsWord]

/-- The fields that look like those of a snapshot are the written form of some words. -/
theorem forall₂_forms_iff {fields : List Value} :
    List.Forall₂ (fun form field => form field) forms fields ↔
      ∃ parts : Parts, fields = parts.fields := by
  unfold forms
  constructor
  · intro h
    -- a form of each field, in the order of the fields
    match fields, h with
    | _, .cons hr (.cons hc (.cons hf (.cons hp (.cons hs (.cons hw .nil))))) =>
      obtain ⟨registers, rfl⟩ := ((reads_words 16).form_iff _).1 hr
      obtain ⟨commonHigh, rfl⟩ := ((reads_words 5).form_iff _).1 hc
      obtain ⟨fiqHigh, rfl⟩ := ((reads_words 5).form_iff _).1 hf
      obtain ⟨bankedStacks, rfl⟩ := (reads_stackPairs.form_iff _).1 hp
      obtain ⟨spsrs, rfl⟩ := (reads_statuses.form_iff _).1 hs
      obtain ⟨cpsr, rfl⟩ := (reads_word.form_iff _).1 hw
      exact ⟨⟨registers, commonHigh, fiqHigh, bankedStacks, spsrs, cpsr⟩, rfl⟩
  · rintro ⟨parts, rfl⟩
    exact .cons (((reads_words 16).form_iff _).2 ⟨_, rfl⟩) <|
      .cons (((reads_words 5).form_iff _).2 ⟨_, rfl⟩) <|
      .cons (((reads_words 5).form_iff _).2 ⟨_, rfl⟩) <|
      .cons ((reads_stackPairs.form_iff _).2 ⟨_, rfl⟩) <|
      .cons ((reads_statuses.form_iff _).2 ⟨_, rfl⟩) <|
      .cons ((reads_word.form_iff _).2 ⟨_, rfl⟩) .nil

/-! ### The words of a processor -/

theorem length_registers (cpu : Cpu) : cpu.registers.length = 16 := by
  simp [Cpu.registers, Register.all]

theorem get_registers (cpu : Cpu) (h : cpu.registers.toArray.size = 16) (number : Fin 16) :
    (⟨cpu.registers.toArray, h⟩ : Vector Word 16).get number = cpu.read (.ofIndex number) := by
  have hget : ∀ words : Vector Word 16, words.get number = words[number.val] := fun _ => rfl
  rw [hget, Vector.getElem_mk, List.getElem_toArray]
  simp only [Cpu.registers, Register.all, List.getElem_map, List.getElem_finRange]
  rfl

/-- The words of a processor as a snapshot holds them. -/
def Parts.ofCpu (cpu : Cpu) : Parts where
  registers := ⟨cpu.registers.toArray, by simpa using length_registers cpu⟩
  commonHigh := cpu.commonHigh
  fiqHigh := cpu.fiqHigh
  bankedStacks := cpu.bankedStacks
  spsrs := cpu.spsrs
  cpsr := cpu.cpsr.toWord

/-- A processor is written by the fields of its words. -/
theorem toValue_eq (cpu : Cpu) :
    toValue cpu = .object (fieldNames.zip (Parts.ofCpu cpu).fields) := rfl

/-- The word of a register in a snapshot is the register's value in the current mode. -/
theorem Parts.read_ofCpu (cpu : Cpu) (register : Register) :
    (Parts.ofCpu cpu).read register = cpu.read register := by
  have h := get_registers cpu (by simpa using length_registers cpu) register.index
  rw [Register.ofIndex_index] at h
  exact h

/-- The registers of a snapshot are those of its processor. -/
theorem Parts.read_cpu (parts : Parts) (psr : Psr) (register : Register) :
    (parts.cpu psr).read register = parts.read register := by
  cases register with
  | low position =>
    show (Vector.ofFn fun position => parts.read (.low position))[position.val] = _
    rw [Vector.getElem_ofFn]
  | high position =>
    show (Vector.ofFn fun position => parts.read (.high position))[position.val] = _
    rw [Vector.getElem_ofFn]
  | sp => rfl
  | lr => rfl
  | pc => rfl

/-- The words of a processor, together with its status, are the processor. -/
theorem Parts.cpu_ofCpu (cpu : Cpu) : (Parts.ofCpu cpu).cpu cpu.cpsr = cpu := by
  have hlow : Vector.ofFn (fun position => cpu.read (.low position)) = cpu.low := by
    ext i hi
    rw [Vector.getElem_ofFn]
    rfl
  have hhigh : Vector.ofFn (fun position => cpu.read (.high position)) = cpu.high := by
    ext i hi
    rw [Vector.getElem_ofFn]
    rfl
  simp only [Parts.cpu, Parts.read_ofCpu, hlow, hhigh]
  rfl

/-- The words of the processor with given words are those. -/
theorem Parts.ofCpu_cpu {parts : Parts} {psr : Psr} (h : psr.toWord = parts.cpsr) :
    Parts.ofCpu (parts.cpu psr) = parts := by
  -- the registers by number, each as the processor made from the parts reads it
  have hregisters : (Parts.ofCpu (parts.cpu psr)).registers = parts.registers := by
    apply Vector.ext
    intro i hi
    have hread := Parts.read_ofCpu (parts.cpu psr) (.ofIndex ⟨i, hi⟩)
    rw [Parts.read_cpu] at hread
    unfold Parts.read at hread
    rw [Register.index_ofIndex] at hread
    exact hread
  have hcpsr : (Parts.ofCpu (parts.cpu psr)).cpsr = parts.cpsr := h
  cases parts
  simp only [Parts.ofCpu, Parts.mk.injEq] at hregisters hcpsr ⊢
  exact ⟨hregisters, rfl, rfl, rfl, rfl, hcpsr⟩

/-! ### Reading a processor -/

/-- A processor is read exactly from the values that give the fields of its words. -/
theorem ofValue_eq_ok_iff {value : Value} {cpu : Cpu} :
    ofValue value = .ok cpu ↔ value.Gives fieldNames (Parts.ofCpu cpu).fields := by
  rw [← Parts.ofValue?_eq_some_iff]
  unfold ofValue
  constructor
  · intro h
    -- without the parts, or with a status word that names no mode, there is no processor
    cases hparts : Parts.ofValue? value with
    | none =>
      rw [hparts] at h
      nomatch h
    | some parts =>
      rw [hparts] at h
      dsimp only at h
      cases hpsr : Psr.ofWord? parts.cpsr with
      | none =>
        rw [hpsr] at h
        nomatch h
      | some psr =>
        rw [hpsr] at h
        obtain rfl := Except.ok.inj h
        -- the parts that were read are those of the processor
        rw [Parts.ofCpu_cpu (Psr.toWord_of_ofWord? hpsr)]
  · intro h
    rw [h]
    dsimp only
    rw [show (Parts.ofCpu cpu).cpsr = cpu.cpsr.toWord from rfl, Psr.ofWord?_toWord]
    exact congrArg Except.ok (Parts.cpu_ofCpu cpu)

/-- **A snapshot is read back as the processor it was taken of.** -/
theorem ofValue_toValue (cpu : Cpu) : ofValue (toValue cpu) = .ok cpu := by
  have hnames : fieldNames.Nodup := by decide
  rw [ofValue_eq_ok_iff, toValue_eq]
  exact gives_object_zip hnames rfl

end Snapshot

end Armv4t

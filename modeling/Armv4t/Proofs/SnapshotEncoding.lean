import Armv4t.Proofs.Trapping.Run
import Mathlib.Data.List.FinRange

/-!
# Snapshots are a faithful encoding

`Snapshot.Holds` says of a value that it gives the fields of a snapshot, all in their forms, without
regard to what the reader does with them.  The reader accepts the values that hold a status whose
mode field names a mode, and there are two reasons for refusing others: a status that names none, or
fields that are missing or not in their forms.  An accepted value is written back with the fields
that it gives.

No run leaves the processors that are read back: the host of `Trapping.performOn` keeps the status
as a plain word, and the word that it ends with still names a mode.
-/

namespace Armv4t

/-! ### Reading without regard to the mode -/

namespace Snapshot

/-- A value gives the fields of a snapshot, each in its form, the last of them with a given status
word. -/
def Holds (value : Value) (status : Word) : Prop :=
  ∃ fields, value.Gives fieldNames fields ∧
    List.Forall₂ (fun form field => form field) forms fields ∧
    fields.getLast? = some (.ofWord status)

theorem holds_iff {value : Value} {status : Word} :
    Holds value status ↔ ∃ parts, Parts.ofValue? value = some parts ∧ parts.cpsr = status := by
  constructor
  · rintro ⟨fields, hgives, hforms, hlast⟩
    obtain ⟨parts, rfl⟩ := forall₂_forms_iff.1 hforms
    have hstatus : Value.ofWord parts.cpsr = Value.ofWord status := Option.some.inj hlast
    exact ⟨parts, Parts.ofValue?_eq_some_iff.2 hgives, Value.ofWord_injective hstatus⟩
  · rintro ⟨parts, hparts, rfl⟩
    have hgives := Parts.ofValue?_eq_some_iff.1 hparts
    exact ⟨parts.fields, hgives, forall₂_forms_iff.2 ⟨parts, rfl⟩, rfl⟩

/-- A snapshot is accepted if and only if its status names a mode. -/
theorem exists_ofValue_eq_ok_iff {value : Value} :
    (∃ cpu, ofValue value = .ok cpu) ↔
      ∃ status, Holds value status ∧ ∃ mode : Mode, mode.bits = Psr.modeField status := by
  constructor
  · rintro ⟨cpu, h⟩
    -- the parts of an accepted value are those of the processor, whose status names its mode
    have hparts := Parts.ofValue?_eq_some_iff.2 (ofValue_eq_ok_iff.1 h)
    refine ⟨cpu.cpsr.toWord, holds_iff.2 ⟨_, hparts, rfl⟩, cpu.mode, ?_⟩
    rw [Psr.modeField_toWord]
    rfl
  · rintro ⟨status, hholds, mode, hmode⟩
    obtain ⟨parts, hparts, rfl⟩ := holds_iff.1 hholds
    -- the status word of the parts decides
    cases hpsr : Psr.ofWord? parts.cpsr with
    | none => exact absurd hmode (Psr.ofWord?_eq_none_iff.1 hpsr mode)
    | some psr =>
      refine ⟨parts.cpu psr, ofValue_eq_ok_iff.2 ?_⟩
      rw [Parts.ofCpu_cpu (Psr.toWord_of_ofWord? hpsr)]
      exact Parts.ofValue?_eq_some_iff.1 hparts

/-- The accepted values are those that give what is written back. -/
theorem ofValue_eq_ok_iff_toValue {value : Value} {cpu : Cpu} :
    ofValue value = .ok cpu ↔ ∃ fields, value.Gives fieldNames fields ∧
      toValue cpu = .object (fieldNames.zip fields) := by
  rw [ofValue_eq_ok_iff, toValue_eq]
  constructor
  · intro h
    exact ⟨_, h, rfl⟩
  · rintro ⟨fields, hgives, hfields⟩
    -- as many fields have the same names, so the records are equal only if the fields are
    have hzip := congrArg (List.map Prod.snd) (Value.object.inj hfields)
    have hlen := hgives.1
    have hlen' : (Parts.ofCpu cpu).fields.length = fieldNames.length := rfl
    rw [List.map_snd_zip (by omega), List.map_snd_zip (by omega)] at hzip
    rw [hzip]
    exact hgives

theorem ofValue_eq_error_invalidMode_iff {value : Value} {bits : BitVec 5} :
    ofValue value = .error (.invalidMode bits) ↔
      ∃ status, Holds value status ∧ Psr.modeField status = bits ∧
        ∀ mode : Mode, mode.bits ≠ bits := by
  simp only [holds_iff]
  unfold ofValue
  cases hparts : Parts.ofValue? value with
  -- a value that has not its parts holds no status either
  | none =>
    constructor
    · intro h
      nomatch h
    · rintro ⟨_, ⟨_, h, -⟩, -⟩
      nomatch h
  | some parts =>
    dsimp only
    constructor
    · intro h
      cases hpsr : Psr.ofWord? parts.cpsr with
      | some psr =>
        rw [hpsr] at h
        nomatch h
      | none =>
        rw [hpsr] at h
        obtain rfl := SnapshotError.invalidMode.inj (Except.error.inj h)
        exact ⟨parts.cpsr, ⟨parts, rfl, rfl⟩, rfl, Psr.ofWord?_eq_none_iff.1 hpsr⟩
    · rintro ⟨_, ⟨_, hsame, rfl⟩, rfl, hmode⟩
      -- a value has its parts in one way only
      obtain rfl := Option.some.inj hsame
      rw [Psr.ofWord?_eq_none_iff.2 hmode]

theorem ofValue_eq_error_malformed_iff {value : Value} :
    ofValue value = .error .malformed ↔ ¬∃ status, Holds value status := by
  simp only [holds_iff]
  unfold ofValue
  cases hparts : Parts.ofValue? value with
  | none =>
    constructor
    · rintro - ⟨_, _, h, -⟩
      nomatch h
    · intro _
      rfl
  | some parts =>
    dsimp only
    constructor
    · intro h
      -- with all its parts a value is accepted or has no mode
      cases hpsr : Psr.ofWord? parts.cpsr with
      | some psr =>
        rw [hpsr] at h
        nomatch h
      | none =>
        rw [hpsr] at h
        nomatch h
    · intro h
      exact absurd ⟨parts.cpsr, parts, rfl, rfl⟩ h

end Snapshot

/-! ### The cells at the end of a run -/

namespace Trapping

/-- The written form of the cells of a host. -/
def Cells.toValue (cells : Cells) : Value :=
  .object (Snapshot.fieldNames.zip
    [.ofWords cells.registers.toList, .ofWords cells.commonHigh.toList,
      .ofWords cells.fiqHigh.toList,
      .array (cells.bankedStacks.toList.map fun pair => .ofWords pair.toList),
      .ofWords cells.spsrs.toList, .ofWord cells.cpsr])

theorem toValue_cells (cpu : Cpu) : cpu.cells.toValue = Snapshot.toValue cpu := by
  have hregisters : cpu.cells.registers.toList = cpu.registers := by
    show (Vector.ofFn fun number => cpu.read (.ofIndex number)).toList = _
    rw [Vector.toList_ofFn, List.ofFn_eq_map]
    unfold Cpu.registers Register.all
    rw [List.map_map]
    rfl
  unfold Cells.toValue
  rw [hregisters]
  rfl

/-- The cells of a processor are read back from what the host writes for them. -/
theorem cells_snapshot (cpu : Cpu) :
    (Origin.snapshot cpu.cells.toValue).cells = .ok (.ok cpu.cells) := by
  rw [cells_origin, toValue_cells]
  show Except.ok ((Snapshot.ofValue (Snapshot.toValue cpu)).map Cpu.cells) = _
  rw [Snapshot.ofValue_toValue]
  rfl

/-- From the cells of a processor, the host ends with the cells of a processor. -/
theorem performOn_cells {σ : Type} (bus : Bus σ) (calls : List Call) (cpu : Cpu) (state : σ) :
    (performOn bus calls cpu.cells state).value.2 =
      (Armv4t.performOn bus calls cpu state).value.2.cells := by
  have hfollows : Follows cpu.cells cpu (performAll calls) _ := follows_performAll calls
  have hrun := BusProgram.Simulates.run hfollows (Bus.alike_self bus) (rfl : state = state)
  rw [run_lift] at hrun
  exact hrun.value.2

end Trapping

namespace Snapshot

/-- **Snapshots are a faithful encoding.**  At the end of every run from a configuration, the
snapshot is accepted and holds the same words, also for a host that keeps the state as plain words.
A value is accepted if and only if it gives all fields, each in its form, with a status that names a
mode, and it is written back as the record of just these fields.  A status that names no mode is
reported if and only if all else is well. -/
theorem encoding_faithful :
    (∀ (config : Config) (σ : Type) (bus : Bus σ) (calls : List Call) (state : σ),
      let ended := (performOn bus calls (.ofConfig config) state).value.2
      (∃ copy, ofValue (toValue ended) = .ok copy ∧ copy.words = ended.words) ∧
      ∃ cells, Trapping.configured config = .ok cells ∧
        let stored := (Trapping.performOn bus calls cells state).value.2
        stored.toValue = toValue ended ∧
          (Trapping.Origin.snapshot stored.toValue).cells = .ok (.ok stored)) ∧
    ∀ value : Value,
      ((∃ cpu, ofValue value = .ok cpu) ↔
        ∃ status, Holds value status ∧ ∃ mode : Mode, mode.bits = Psr.modeField status) ∧
      (∀ cpu, ofValue value = .ok cpu ↔ ∃ fields, value.Gives fieldNames fields ∧
        toValue cpu = .object (fieldNames.zip fields)) ∧
      (∀ bits, (ofValue value = .error (.invalidMode bits) ↔
        ∃ status, Holds value status ∧ Psr.modeField status = bits ∧
          ∀ mode : Mode, mode.bits ≠ bits) ∧
        (SnapshotError.invalidMode bits).message? =
          some ("invalid processor mode bits 0b" ++ Numeral.binary 5 bits.toNat)) ∧
      (ofValue value = .error .malformed ↔ ¬∃ status, Holds value status) := by
  constructor
  · intro config σ bus calls state ended
    -- the host's run holds the cells of the processor at its end
    have hcells := Trapping.performOn_cells bus calls (.ofConfig config) state
    refine ⟨⟨ended, ofValue_toValue ended, rfl⟩, _, Trapping.configured_eq_ok config, ?_⟩
    dsimp only
    rw [hcells]
    exact ⟨Trapping.toValue_cells ended, Trapping.cells_snapshot ended⟩
  · intro value
    exact ⟨exists_ofValue_eq_ok_iff, fun cpu => ofValue_eq_ok_iff_toValue,
      fun bits => ⟨ofValue_eq_error_invalidMode_iff, rfl⟩, ofValue_eq_error_malformed_iff⟩

/-- A record of zero words with its fields in another order and a member that is no field: only the
status is wrong. -/
example :
    let words (count : Nat) : Value := .ofWords (.replicate count 0)
    let fields := [words 16, words 5, words 5, .array (.replicate 6 (words 2)), words 6, .ofWord 0]
    ofValue (.object (("version", .integer 1) :: (fieldNames.zip fields).reverse)) =
      .error (.invalidMode 0) := by
  rfl

end Snapshot

end Armv4t

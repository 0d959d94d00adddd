import Armv4t.Proofs.Block

/-!
# Processors that agree but for some registers

`c.AgreesBut mode touched d` says that the processor `d` has the status and the saved statuses of
`c` and that, whatever mode looks, its registers are those of `c` but for the touched ones as `mode`
sees them.  The program counter is left out.  The relation is built up along an execution: writes to
touched registers keep it, and giving a touched register back its value makes it one that is not
touched any more (`AgreesBut.restore`, `AgreesBut.refill`).

`c.ChangedTo psr written d` says the same of a processor `d` that has taken the status `psr`, where
the written registers are those of the mode of `c`.
-/

namespace Armv4t.Cpu

theorem sameCell_self (mode : Mode) (register : Register) : SameCell mode mode register := by
  cases register with
  | high position => exact Iff.rfl
  | sp | lr => rfl
  | low position | pc => trivial

/-- Status, saved statuses and all registers agree, but for the program counter and for the touched
registers as a mode sees them. -/
structure AgreesBut (mode : Mode) (touched : Register → Prop) (c d : Cpu) : Prop where
  cpsr : d.cpsr = c.cpsr
  spsrs : d.spsrs = c.spsrs
  readIn (other : Mode) {register : Register} (hpc : register ≠ .pc)
    (hn : touched register → ¬SameCell mode other register) :
    d.readIn other register = c.readIn other register

namespace AgreesBut

variable {mode : Mode} {touched touched' : Register → Prop} {c d e : Cpu}

theorem refl (c : Cpu) : AgreesBut mode touched c c :=
  ⟨rfl, rfl, fun _ _ _ _ => rfl⟩

theorem trans (h : AgreesBut mode touched c d) (h' : AgreesBut mode touched d e) :
    AgreesBut mode touched c e := by
  refine ⟨h'.cpsr.trans h.cpsr, h'.spsrs.trans h.spsrs, ?_⟩
  intro other register hpc hn
  exact (h'.readIn other hpc hn).trans (h.readIn other hpc hn)

theorem mono (h : AgreesBut mode touched c d)
    (imp : ∀ register, touched register → touched' register) : AgreesBut mode touched' c d := by
  refine ⟨h.cpsr, h.spsrs, ?_⟩
  intro other register hpc hn
  exact h.readIn other hpc fun ht => hn (imp register ht)

theorem mode_eq (h : AgreesBut mode touched c d) : d.mode = c.mode :=
  congrArg Psr.mode h.cpsr

theorem instructionSet_eq (h : AgreesBut mode touched c d) :
    d.instructionSet = c.instructionSet :=
  congrArg Psr.instructionSet h.cpsr

/-- In its own mode, a processor reads the registers that are not touched as before. -/
theorem read_eq (h : AgreesBut c.mode touched c d) {register : Register} (hpc : register ≠ .pc)
    (hn : ¬touched register) : d.read register = c.read register := by
  rw [← d.readIn_mode, ← c.readIn_mode, h.mode_eq]
  exact h.readIn c.mode hpc fun ht => absurd ht hn

/-- The program counter may be anything. -/
theorem withPc (h : AgreesBut mode touched c d) (pc : Word) :
    AgreesBut mode touched c { d with pc := pc } := by
  refine ⟨h.cpsr, h.spsrs, ?_⟩
  intro other register hpc hn
  rw [readIn_withPc d pc other hpc]
  exact h.readIn other hpc hn

/-- A touched register may be written. -/
theorem writeIn (h : AgreesBut mode touched c d) {register : Register} (ht : touched register)
    (hpc : register ≠ .pc) (value : Word) :
    AgreesBut mode touched c (d.writeIn mode register value) := by
  refine ⟨?_, ?_, ?_⟩
  · rw [cpsr_writeIn, h.cpsr]
  · rw [spsrs_writeIn, h.spsrs]
  · intro other read hr hn
    -- the cell that was written is one that may have changed
    have hother : ¬(read = register ∧ SameCell mode other register) := by
      rintro ⟨rfl, hs⟩
      exact hn ht hs
    rw [readIn_writeIn d mode value hpc, if_neg hother]
    exact h.readIn other hr hn

/-- A touched register of the current mode may be written. -/
theorem write (h : AgreesBut c.mode touched c d) {register : Register} (ht : touched register)
    (hpc : register ≠ .pc) (value : Word) :
    AgreesBut c.mode touched c (d.write register value) := by
  rw [write_eq_writeIn, h.mode_eq]
  exact h.writeIn ht hpc value

/-- Touched registers may be filled with words. -/
theorem fillIn (h : AgreesBut mode touched c d) {registers : List Register}
    (ht : ∀ register ∈ registers, touched register) (hpc : .pc ∉ registers) (words : List Word) :
    AgreesBut mode touched c (d.fillIn mode registers words) := by
  refine ⟨?_, ?_, ?_⟩
  · rw [cpsr_fillIn, h.cpsr]
  · rw [spsrs_fillIn, h.spsrs]
  · intro other register hr hn
    have hother : register ∈ registers.take words.length → ¬SameCell mode other register :=
      fun hm => hn (ht register (List.mem_of_mem_take hm))
    rw [readIn_fillIn_of_notMem hpc hother]
    exact h.readIn other hr hn

/-- A register that is given back its value is touched no longer. -/
theorem restore (h : AgreesBut mode touched c d) {register : Register} (hpc : register ≠ .pc)
    (imp : ∀ other, touched other → other = register ∨ touched' other) :
    AgreesBut mode touched' c (d.writeIn mode register (c.readIn mode register)) := by
  refine ⟨?_, ?_, ?_⟩
  · rw [cpsr_writeIn, h.cpsr]
  · rw [spsrs_writeIn, h.spsrs]
  · intro other read hr hn
    rw [readIn_writeIn d mode _ hpc]
    -- the register reads its old value in every mode that shares its cell
    by_cases hs : read = register ∧ SameCell mode other register
    · rw [if_pos hs, hs.1]
      exact c.readIn_eq_of_sameCell hs.2
    · rw [if_neg hs]
      apply h.readIn other hr
      intro ht
      -- in a mode with another cell for it, the register may not have changed
      rcases imp read ht with rfl | ht'
      · exact fun hsame => hs ⟨rfl, hsame⟩
      · exact hn ht'

/-- Registers that are given back their values are touched no longer. -/
theorem refill (h : AgreesBut mode touched c d) {registers : List Register}
    (hpc : .pc ∉ registers) (hnodup : registers.Nodup)
    (imp : ∀ register, touched register → register ∈ registers ∨ touched' register) :
    AgreesBut mode touched' c (d.fillIn mode registers (registers.map (c.readIn mode))) := by
  refine ⟨?_, ?_, ?_⟩
  · rw [cpsr_fillIn, h.cpsr]
  · rw [spsrs_fillIn, h.spsrs]
  · intro other register hr hn
    by_cases hs : register ∈ registers ∧ SameCell mode other register
    · obtain ⟨hm, hsame⟩ := hs
      obtain ⟨i, hi⟩ := List.mem_iff_getElem?.1 hm
      -- the value that fills a register is its own
      have hvalue : (registers.map (c.readIn mode))[i]? = some (c.readIn mode register) := by
        rw [List.getElem?_map, hi]
        rfl
      rw [readIn_fillIn hpc hnodup hi hvalue hsame]
      exact c.readIn_eq_of_sameCell hsame
    · rw [readIn_fillIn_of_notMem hpc fun hm hsame => hs ⟨List.mem_of_mem_take hm, hsame⟩]
      apply h.readIn other hr
      -- what is not filled in may only be touched as `touched'` says
      intro ht hsame
      rcases imp register ht with hm | ht'
      · exact hs ⟨hm, hsame⟩
      · exact hn ht' hsame

end AgreesBut

/-! ### Processors that have taken another status -/

/-- The processor has taken a status.  Saved statuses and all registers are as they were, but for
the program counter and for the written registers of the mode that it was in. -/
structure ChangedTo (psr : Psr) (written : Register → Prop) (c d : Cpu) : Prop where
  cpsr : d.cpsr = psr
  spsrs : d.spsrs = c.spsrs
  readIn (mode : Mode) {register : Register} (hpc : register ≠ .pc)
    (hn : written register → ¬SameCell c.mode mode register) :
    d.readIn mode register = c.readIn mode register

theorem AgreesBut.changedTo {written : Register → Prop} {c d : Cpu}
    (h : AgreesBut c.mode written c d) : ChangedTo c.cpsr written c d :=
  ⟨h.cpsr, h.spsrs, h.readIn⟩

namespace ChangedTo

variable {psr : Psr} {written : Register → Prop} {c d : Cpu}

/-- The program counter may be anything. -/
theorem withPc (h : ChangedTo psr written c d) (pc : Word) :
    ChangedTo psr written c { d with pc := pc } := by
  refine ⟨h.cpsr, h.spsrs, ?_⟩
  intro mode register hpc hn
  rw [readIn_withPc d pc mode hpc]
  exact h.readIn mode hpc hn

/-- Another status may be taken: this moves no register. -/
theorem withPsr (h : ChangedTo psr written c d) (psr' : Psr) :
    ChangedTo psr' written c (d.withPsr psr') := by
  refine ⟨cpsr_withPsr d psr', ?_, ?_⟩
  · rw [spsrs_withPsr, h.spsrs]
  · intro mode register hpc hn
    rw [readIn_withPsr]
    exact h.readIn mode hpc hn

theorem withFlags (h : ChangedTo psr written c d) (flags : Flags) :
    ChangedTo { psr with flags := flags } written c (d.withFlags flags) := by
  refine ⟨?_, h.spsrs, ?_⟩
  · show { d.cpsr with flags := flags } = _
    rw [h.cpsr]
  · intro mode register hpc hn
    rw [readIn_withFlags]
    exact h.readIn mode hpc hn

end ChangedTo

end Armv4t.Cpu

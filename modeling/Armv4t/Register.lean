import Armv4t.Word

/-!
# Register names

An instruction names one of sixteen registers.  They fall into the groups that banking treats
differently: the low registers exist once, the high registers R8 to R12 in two copies, the stack
pointer and the link register once per bank, and the program counter once.
-/

namespace Armv4t

/-- The eight registers that every instruction of the small set can name. -/
abbrev LowRegister := Fin 8

/-- A register as an instruction names it. -/
inductive Register where
  /-- One of R0 to R7. -/
  | low (position : LowRegister)
  /-- One of R8 to R12, counted from R8. -/
  | high (position : Fin 5)
  /-- R13, the stack pointer. -/
  | sp
  /-- R14, the link register. -/
  | lr
  /-- R15, the program counter. -/
  | pc
deriving DecidableEq, Repr

namespace Register

/-- The number of the register. -/
def index : Register → Fin 16
  | low position => ⟨position, by omega⟩
  | high position => ⟨8 + position, by omega⟩
  | sp => 13
  | lr => 14
  | pc => 15

/-- The register of a given number. -/
def ofIndex (number : Fin 16) : Register :=
  if h : number.val < 8 then low ⟨number, h⟩
  else if h : number.val < 13 then high ⟨number.val - 8, by omega⟩
  else if number.val = 13 then sp
  else if number.val = 14 then lr
  else pc

/-- The register that a four-bit field of an instruction names. -/
def ofField (field : BitVec 4) : Register :=
  ofIndex field.toFin

/-- All registers in ascending order. -/
def all : List Register :=
  (List.finRange 16).map ofIndex

/-- All registers but the program counter, in ascending order. -/
def general : List Register :=
  all.filter (· ≠ pc)

/-- The text of the register in the assembly language. -/
def text : Register → String
  | low position => "r" ++ toString position.val
  | high position => "r" ++ toString (8 + position.val)
  | sp => "sp"
  | lr => "lr"
  | pc => "pc"

/-- The plain name of the register, from `R0` to `R15`. -/
def name (register : Register) : String :=
  "R" ++ toString register.index.val

@[simp] theorem ofIndex_index (register : Register) : ofIndex register.index = register := by
  cases register with
  | low position => revert position; decide
  | high position => revert position; decide
  | sp => rfl
  | lr => rfl
  | pc => rfl

@[simp] theorem index_ofIndex (number : Fin 16) : (ofIndex number).index = number := by
  revert number; decide

theorem index_injective {r s : Register} (h : r.index = s.index) : r = s := by
  rw [← ofIndex_index r, h, ofIndex_index]

theorem sp_ne_pc : sp ≠ pc := by decide

theorem lr_ne_pc : lr ≠ pc := by decide

theorem sp_ne_lr : sp ≠ lr := by decide

theorem mem_all (register : Register) : register ∈ all := by
  rw [all, List.mem_map]
  exact ⟨register.index, List.mem_finRange _, ofIndex_index register⟩

end Register

end Armv4t

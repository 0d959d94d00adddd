import Armv4t.Word

/-!
# Processor modes, register banks and instruction sets

Seven modes share six banks: User and System see the same registers, every other mode has its own
stack pointer, link register and saved status.  A `Banked α` holds one value per bank.
-/

namespace Armv4t

/-- The seven processor modes. -/
inductive Mode where
  | user
  | fiq
  | irq
  | supervisor
  | abort
  | undefined
  | system
deriving DecidableEq, Repr

/-- The six banks of stack pointer, link register and saved status. -/
inductive Bank where
  | user
  | fiq
  | irq
  | supervisor
  | abort
  | undefined
deriving DecidableEq, Repr

namespace Mode

/-- All modes, in the order of their names in a configuration. -/
def all : List Mode := [user, fiq, irq, supervisor, abort, undefined, system]

/-- The value of the mode field of a status register. -/
def bits : Mode → BitVec 5
  | user => 0b10000
  | fiq => 0b10001
  | irq => 0b10010
  | supervisor => 0b10011
  | abort => 0b10111
  | undefined => 0b11011
  | system => 0b11111

/-- The mode that a mode field names, if it names one. -/
def ofBits? (field : BitVec 5) : Option Mode :=
  all.find? (·.bits == field)

/-- The mode that a number names when it is written in a mode field. -/
def ofNat? (number : Nat) : Option Mode :=
  if number < 32 then ofBits? (BitVec.ofNat 5 number) else none

/-- The bank whose registers the mode sees. -/
def bank : Mode → Bank
  | user => .user
  | fiq => .fiq
  | irq => .irq
  | supervisor => .supervisor
  | abort => .abort
  | undefined => .undefined
  | system => .user

/-- Every mode but User may change the mode and the interrupt masks. -/
def isPrivileged (mode : Mode) : Bool :=
  mode != user

/-- The name of the mode in configurations and messages. -/
def name : Mode → String
  | user => "User"
  | fiq => "Fiq"
  | irq => "Irq"
  | supervisor => "Supervisor"
  | abort => "Abort"
  | undefined => "Undefined"
  | system => "System"

/-- The mode of a given name. -/
def ofName? (text : String) : Option Mode :=
  all.find? (·.name == text)

theorem mem_all (mode : Mode) : mode ∈ all := by
  cases mode <;> decide

@[simp] theorem ofBits?_bits (mode : Mode) : ofBits? mode.bits = some mode := by
  cases mode <;> decide

theorem bits_of_ofBits? {field : BitVec 5} {mode : Mode} (h : ofBits? field = some mode) :
    mode.bits = field := by
  simpa using List.find?_some h

theorem ofBits?_eq_some_iff {field : BitVec 5} {mode : Mode} :
    ofBits? field = some mode ↔ mode.bits = field :=
  ⟨bits_of_ofBits?, fun h => h ▸ ofBits?_bits mode⟩

theorem bits_injective {m n : Mode} (h : m.bits = n.bits) : m = n := by
  have := ofBits?_bits m
  rw [h, ofBits?_bits] at this
  exact (Option.some.inj this).symm

@[simp] theorem ofName?_name (mode : Mode) : ofName? mode.name = some mode := by
  cases mode <;> decide

theorem ofName?_eq_some_iff {text : String} {mode : Mode} :
    ofName? text = some mode ↔ mode.name = text :=
  ⟨fun h => by simpa using List.find?_some h, fun h => h ▸ ofName?_name mode⟩

theorem bank_eq_fiq_iff {mode : Mode} : mode.bank = .fiq ↔ mode = .fiq := by
  cases mode <;> decide

end Mode

/-- The two instruction sets, which are also the two states of the processor. -/
inductive InstructionSet where
  | arm
  | thumb
deriving DecidableEq, Repr

namespace InstructionSet

/-- The width of one instruction. -/
def width : InstructionSet → Width
  | arm => .word
  | thumb => .halfword

/-- The size of one instruction in bytes, as a word to compute addresses with. -/
def size (set : InstructionSet) : Word :=
  BitVec.ofNat 32 set.width.bytes

/-- How far the program counter runs ahead of the instruction being executed: two instructions. -/
def lookahead (set : InstructionSet) : Word :=
  2 * set.size

/-- An instruction address of this set: the given address with its lowest bits cleared. -/
def align (set : InstructionSet) (address : Word) : Word :=
  set.width.align address

/-- The name of the set in configurations and messages. -/
def name : InstructionSet → String
  | arm => "Arm"
  | thumb => "Thumb"

/-- The set of a given name. -/
def ofName? (text : String) : Option InstructionSet :=
  [arm, thumb].find? (·.name == text)

@[simp] theorem ofName?_name (set : InstructionSet) : ofName? set.name = some set := by
  cases set <;> decide

theorem ofName?_eq_some_iff {text : String} {set : InstructionSet} :
    ofName? text = some set ↔ set.name = text :=
  ⟨fun h => by simpa using List.find?_some h, fun h => h ▸ ofName?_name set⟩

end InstructionSet

/-- One value per bank. -/
structure Banked (α : Type) where
  user : α
  fiq : α
  irq : α
  supervisor : α
  abort : α
  undefined : α
deriving DecidableEq, Repr

namespace Banked

variable {α : Type}

/-- The same value in every bank. -/
def replicate (value : α) : Banked α :=
  ⟨value, value, value, value, value, value⟩

/-- The value of one bank. -/
def get (values : Banked α) : Bank → α
  | .user => values.user
  | .fiq => values.fiq
  | .irq => values.irq
  | .supervisor => values.supervisor
  | .abort => values.abort
  | .undefined => values.undefined

/-- The values with that of one bank replaced. -/
def set (values : Banked α) (bank : Bank) (value : α) : Banked α :=
  match bank with
  | .user => { values with user := value }
  | .fiq => { values with fiq := value }
  | .irq => { values with irq := value }
  | .supervisor => { values with supervisor := value }
  | .abort => { values with abort := value }
  | .undefined => { values with undefined := value }

/-- The values of all banks in order. -/
def toList (values : Banked α) : List α :=
  [values.user, values.fiq, values.irq, values.supervisor, values.abort, values.undefined]

/-- One value per bank from a list of six. -/
def ofList? : List α → Option (Banked α)
  | [user, fiq, irq, supervisor, abort, undefined] =>
    some ⟨user, fiq, irq, supervisor, abort, undefined⟩
  | _ => none

/-- The values under a function. -/
def map {β : Type} (f : α → β) (values : Banked α) : Banked β :=
  ⟨f values.user, f values.fiq, f values.irq, f values.supervisor, f values.abort,
    f values.undefined⟩

@[simp] theorem get_set_self (values : Banked α) (bank : Bank) (value : α) :
    (values.set bank value).get bank = value := by
  cases bank <;> rfl

theorem get_set (values : Banked α) (bank other : Bank) (value : α) :
    (values.set bank value).get other = if other = bank then value else values.get other := by
  cases bank <;> cases other <;> rfl

@[simp] theorem get_replicate (value : α) (bank : Bank) : (replicate value).get bank = value := by
  cases bank <;> rfl

@[simp] theorem get_map {β : Type} (f : α → β) (values : Banked α) (bank : Bank) :
    (values.map f).get bank = f (values.get bank) := by
  cases bank <;> rfl

@[simp] theorem ofList?_toList (values : Banked α) : ofList? values.toList = some values := rfl

theorem ofList?_eq_some_iff {list : List α} {values : Banked α} :
    ofList? list = some values ↔ list = values.toList := by
  constructor
  · intro h
    match list, h with
    | [user, fiq, irq, supervisor, abort, undefined], h => rw [← Option.some.inj h]; rfl
  · rintro rfl
    exact ofList?_toList values

/-- The lists of six values have one for each bank. -/
theorem length_eq_iff {list : List α} :
    list.length = 6 ↔ ∃ values : Banked α, list = values.toList := by
  constructor
  · intro h
    match list, h with
    | [user, fiq, irq, supervisor, abort, undefined], _ =>
      exact ⟨⟨user, fiq, irq, supervisor, abort, undefined⟩, rfl⟩
  · rintro ⟨values, rfl⟩
    rfl

end Banked

end Armv4t

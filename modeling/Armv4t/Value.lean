import Armv4t.Word

/-!
# Structured values

Configurations and snapshots are kept as structured values: nested lists and records of numbers,
names and switches.  This module reads parts of such values.  A record may be given with its fields
named, each once, in any order and with others among them, or as a plain list of its fields in order
(`Value.fields?`).
-/

namespace Armv4t

/-- A structured value. -/
inductive Value where
  | null
  | bool (value : Bool)
  | integer (value : Int)
  /-- A number written with decimal places. -/
  | decimal (mantissa : Int) (places : Nat)
  | string (value : String)
  | array (items : List Value)
  | object (members : List (String × Value))

namespace Value

instance : Inhabited Value := ⟨null⟩

/-- A word as a structured value. -/
def ofWord (word : Word) : Value :=
  integer word.toNat

/-- A list of words as a structured value. -/
def ofWords (words : List Word) : Value :=
  array (words.map ofWord)

/-- A number is a word if it is written as an integer and lies in the range of words. -/
def word? : Value → Option Word
  | integer value => if 0 ≤ value ∧ value < 0x100000000 then some (.ofInt 32 value) else none
  | _ => none

/-- Only the two switch values are Booleans. -/
def bool? : Value → Option Bool
  | bool value => some value
  | _ => none

/-- A name stands alone or as the only field of a record, with nothing in it. -/
def name? : Value → Option String
  | string name => some name
  | object [(name, null)] => some name
  | _ => none

/-- A list of items that are all read alike. -/
def list? {α : Type} (read : Value → Option α) : Value → Option (List α)
  | array items => items.mapM read
  | _ => none

/-- A list of exactly `n` items. -/
def vector? {α : Type} (read : Value → Option α) (n : Nat) (value : Value) :
    Option (Vector α n) := do
  let values ← value.list? read
  if h : values.length = n then some ⟨values.toArray, h⟩ else none

/-- The value under a name among the members of a record, if it is given.  It may not be given
twice. -/
def member? (members : List (String × Value)) (name : String) : Option (Option Value) :=
  match members.filter (·.1 = name) with
  | [] => some none
  | [member] => some (some member.2)
  | _ => none

/-- The fields of a record in the order of their names, each if it is given.  A plain list gives the
leading fields and may not have more items than there are fields. -/
def fields? (names : List String) : Value → Option (List (Option Value))
  | object members => names.mapM (member? members)
  | array items =>
    if items.length ≤ names.length then
      some (items.map some ++ List.replicate (names.length - items.length) none)
    else none
  | _ => none

/-- Reads a field that has a default. -/
def orDefault {α : Type} (default : α) (read : Value → Option α) : Option Value → Option α
  | none => some default
  | some value => read value

@[simp] theorem word?_ofWord (word : Word) : word? (ofWord word) = some word := by
  have h := word.isLt
  simp only [ofWord, word?]
  rw [if_pos (by omega)]
  simp

end Value

end Armv4t

import Armv4t.Assembly
import Armv4t.Condition
import Mathlib.Algebra.Group.Nat.Defs
import Mathlib.Tactic.Common

/-!
# Reading assembly notation

The way back from a line of assembly language to what it says.  A line is cut into words at blanks,
commas and brackets; the first word is the mnemonic and each other one an operand.  Readers are
functions, and each is the inverse of what writes the notation: numerals are read back to their
values (`Numeral.magnitude?_magnitude`), operands to what they name, and the runs of a register list
expand to exactly the listed registers (`Assembly.expand_runs`).

Since the words of two texts with a gap between them are those of the one and then those of the
other (`Assembly.words_gap`), what a line reads as follows the way it was put together.
-/

namespace Armv4t

/-! ### Numerals -/

namespace Numeral

/-- The value of a digit in a base up to sixteen. -/
def digitValue? (base : Nat) (digit : Char) : Option Nat :=
  ("0123456789ABCDEF".toList.idxOf? digit).filter (· < base)

/-- The value of a numeral, its most significant digit first. -/
def value? (base : Nat) (digits : List Char) : Option Nat :=
  digits.foldlM (fun value digit => (digitValue? base digit).map (base * value + ·)) 0

theorem value?_concat (base : Nat) (digits : List Char) (last : Char) :
    value? base (digits ++ [last]) =
      (value? base digits).bind fun value => (digitValue? base last).map (base * value + ·) := by
  unfold value?
  rw [List.foldlM_append]
  simp

/-- A leading zero does not count. -/
theorem value?_zero_cons (digits : List Char) : value? 16 ('0' :: digits) = value? 16 digits := by
  unfold value?
  rw [List.foldlM_cons]
  rfl

theorem value?_dropWhile_zero (digits : List Char) :
    value? 16 (digits.dropWhile (· == '0')) = value? 16 digits := by
  induction digits with
  | nil => rfl
  | cons digit rest ih =>
    -- a leading zero is dropped, and any other digit ends the dropping
    by_cases h : digit = '0'
    · subst h
      rw [value?_zero_cons, ← ih]
      rfl
    · rw [List.dropWhile_cons_of_neg (by simpa using h)]

/-- The digits of a number are those of what remains of it modulo a power of the base. -/
theorem value?_digits (count value : Nat) :
    value? 16 (digits .upper 16 count value) = some (value % 16 ^ count) := by
  induction count generalizing value with
  | zero =>
    rw [pow_zero, Nat.mod_one]
    rfl
  | succ count ih =>
    -- the last digit is a remainder by sixteen, and the others are the digits of the quotient
    have hdigit : ∀ d : Fin 16, digitValue? 16 (digit .upper d.val) = some d.val := by decide
    have hlast := hdigit ⟨value % 16, Nat.mod_lt value (by decide)⟩
    rw [digits, value?_concat, ih, hlast, pow_succ', Nat.mod_mul, Nat.add_comm]
    rfl

/-- The value of the magnitude of an immediate. -/
def magnitude? (text : List Char) : Option Nat :=
  match text with
  | '0' :: 'x' :: digits => value? 16 digits
  | digits => value? 10 digits

theorem magnitude?_magnitude {value : Nat} (h : value < 16 ^ 8) :
    magnitude? (magnitude value).toList = some value := by
  unfold magnitude
  split_ifs with hsmall
  -- a number below ten has one digit and no mark
  · have hdigit : ∀ d : Fin 10,
        magnitude? (String.ofList [digit .upper d.val]).toList = some d.val := by decide
    exact hdigit ⟨value, hsmall⟩
  · rw [String.toList_append]
    show value? 16 (shortHex value).toList = some value
    rw [shortHex, String.toList_ofList, value?_dropWhile_zero, value?_digits, Nat.mod_eq_of_lt h]

end Numeral

/-- The register of a name in the assembly language. -/
def Register.ofText? (text : List Char) : Option Register :=
  all.find? (·.text.toList == text)

/-- The condition of a suffix in the assembly language. -/
def Condition.ofText? (text : List Char) : Option Condition :=
  all.find? (·.text.toList == text)

theorem Condition.ofText?_text (condition : Condition) :
    ofText? condition.text.toList = some condition := by
  cases condition <;> decide

namespace Assembly

/-! ### Words -/

/-- Whether a character stands between words. -/
def isGap (char : Char) : Bool :=
  " ,[]\x7b\x7d".toList.contains char

/-- The pieces of a text that contain no gap. -/
def pieces (chars : List Char) : List (List Char) :=
  (chars.splitOnP isGap).filter (!·.isEmpty)

/-- The words of a text. -/
def words (text : String) : List String :=
  (pieces text.toList).map .ofList

/-- A text without characters of a kind. -/
def Lacks (kind : Char → Bool) (text : String) : Prop :=
  ∀ char ∈ text.toList, kind char = false

/-- A text of nothing but gaps. -/
def IsGap (text : String) : Prop :=
  text.toList ≠ [] ∧ Lacks (!isGap ·) text

/-- A text without gaps. -/
def IsWord (text : String) : Prop :=
  text.toList ≠ [] ∧ Lacks isGap text

-- decided by going through the characters of the text, not through all characters that there are
instance (kind : Char → Bool) (text : String) : Decidable (Lacks kind text) :=
  List.decidableBAll _ _

instance (text : String) : Decidable (IsGap text) :=
  inferInstanceAs (Decidable (_ ∧ _))

instance (text : String) : Decidable (IsWord text) :=
  inferInstanceAs (Decidable (_ ∧ _))

theorem Lacks.append {kind : Char → Bool} {first rest : String} (h : Lacks kind first)
    (hrest : Lacks kind rest) : Lacks kind (first ++ rest) := by
  unfold Lacks
  rw [String.toList_append]
  exact List.forall_mem_append.2 ⟨h, hrest⟩

theorem IsWord.append {first rest : String} (h : IsWord first) (hrest : Lacks isGap rest) :
    IsWord (first ++ rest) := by
  refine ⟨?_, h.2.append hrest⟩
  rw [String.toList_append]
  exact List.append_ne_nil_of_left_ne_nil h.1 _

theorem lacks_conditionText (condition : Condition) : Lacks isGap condition.text := by
  cases condition <;> decide

theorem pieces_append_cons (first rest : List Char) {gap : Char} (h : isGap gap = true) :
    pieces (first ++ gap :: rest) = pieces first ++ pieces rest := by
  unfold pieces
  rw [List.splitOnP_append_cons first rest h, List.filter_append]

theorem pieces_gap_append {gap : List Char} (h : ∀ char ∈ gap, isGap char = true)
    (rest : List Char) : pieces (gap ++ rest) = pieces rest := by
  induction gap with
  | nil => rfl
  | cons char gap ih =>
    obtain ⟨hchar, hgap⟩ := List.forall_mem_cons.1 h
    exact (pieces_append_cons [] (gap ++ rest) hchar).trans (ih hgap)

/-- The words of two texts with a gap between them. -/
theorem words_gap {gap : String} (h : IsGap gap) (first rest : String) :
    words (first ++ gap ++ rest) = words first ++ words rest := by
  obtain ⟨hne, hlacks⟩ := h
  have hgap : ∀ char ∈ gap.toList, isGap char = true := by
    simpa [Lacks] using hlacks
  -- one gap character parts the pieces, and those that follow it part only empty ones
  obtain ⟨char, more, hchars⟩ := List.exists_cons_of_ne_nil hne
  rw [hchars, List.forall_mem_cons] at hgap
  unfold words
  rw [String.toList_append, String.toList_append, hchars, List.append_assoc, List.cons_append,
    pieces_append_cons _ _ hgap.1, pieces_gap_append hgap.2, List.map_append]

/-- A gap before a text does not count. -/
theorem words_open {gap : String} (h : IsGap gap) (text : String) :
    words (gap ++ text) = words text := by
  have hwords := words_gap h "" text
  rw [String.empty_append] at hwords
  exact hwords

/-- Nor does a gap behind it. -/
theorem words_close {gap : String} (h : IsGap gap) (text : String) :
    words (text ++ gap) = words text := by
  have hwords := words_gap h text ""
  rw [String.append_empty] at hwords
  exact hwords.trans (List.append_nil _)

theorem words_of_isWord {text : String} (h : IsWord text) : words text = [text] := by
  unfold words pieces
  rw [List.splitOnP_eq_singleton h.2]
  simp [h.1]

/-! ### Operands -/

/-- What an operand of an instruction says. -/
inductive Operand where
  | register (register : Register)
  /-- A register that is written back to. -/
  | base (register : Register)
  /-- The registers from one to another. -/
  | range (first last : Register)
  /-- An immediate, with whether it has a minus sign. -/
  | number (minus : Bool) (magnitude : Nat)
  | address (address : Word)
  /-- The mark of a transfer of the registers of User mode. -/
  | userMark
deriving DecidableEq, Repr

/-- The operand that a word without a hyphen says. -/
def Operand.ofPlain? (word : List Char) : Option Operand :=
  match word with
  | ['^'] => some .userMark
  | '#' :: digits => (Numeral.magnitude? digits).map (.number false)
  | '0' :: 'x' :: digits => (Numeral.value? 16 digits).map fun value => .address (.ofNat 32 value)
  | name =>
    if name.getLast? = some '!' then (Register.ofText? name.dropLast).map .base
    else (Register.ofText? name).map .register

/-- The operand that a word says with a hyphen between two parts: a minus sign or a range. -/
def Operand.ofHyphenated? (first last : List Char) : Option Operand :=
  if first = ['#'] then (Numeral.magnitude? last).map (.number true)
  else do return .range (← Register.ofText? first) (← Register.ofText? last)

/-- The operand that a word says. -/
def Operand.ofText? (text : String) : Option Operand :=
  match text.toList.splitOnP (· == '-') with
  | [word] => ofPlain? word
  | [first, last] => ofHyphenated? first last
  | _ => none

theorem Operand.ofText?_plain {text : String} (h : Lacks (· == '-') text) :
    ofText? text = ofPlain? text.toList := by
  unfold ofText?
  rw [List.splitOnP_eq_singleton h]

theorem Operand.ofText?_hyphen {first last : String} (h : Lacks (· == '-') first)
    (h' : Lacks (· == '-') last) :
    ofText? (first ++ "-" ++ last) = ofHyphenated? first.toList last.toList := by
  have hchars : (first ++ "-" ++ last).toList = first.toList ++ '-' :: last.toList := by simp
  unfold ofText?
  rw [hchars, List.splitOnP_append_cons _ _ rfl, List.splitOnP_eq_singleton h,
    List.splitOnP_eq_singleton h', List.singleton_append]

/-- The operands in a text. -/
def operands? (text : String) : Option (List Operand) :=
  (words text).mapM Operand.ofText?

theorem operands?_gap {gap : String} (h : IsGap gap) {first rest : String}
    {operands more : List Operand} (hfirst : operands? first = some operands)
    (hrest : operands? rest = some more) :
    operands? (first ++ gap ++ rest) = some (operands ++ more) := by
  unfold operands? at *
  rw [words_gap h, List.mapM_append, hfirst, hrest]
  rfl

theorem operands?_word {text : String} {operand : Operand} (hw : IsWord text)
    (h : Operand.ofText? text = some operand) : operands? text = some [operand] := by
  unfold operands?
  rw [words_of_isWord hw, List.mapM_cons, h]
  rfl

theorem operands?_register (register : Register) :
    operands? register.text = some [.register register] := by
  have hall : ∀ r ∈ Register.all, operands? r.text = some [.register r] := by decide
  exact hall register register.mem_all

theorem operands?_base (register : Register) :
    operands? (register.text ++ "!") = some [.base register] := by
  have hall : ∀ r ∈ Register.all, operands? (r.text ++ "!") = some [.base r] := by decide
  exact hall register register.mem_all

theorem operands?_range (first last : Register) :
    operands? (first.text ++ "-" ++ last.text) = some [.range first last] := by
  have hname : ∀ r ∈ Register.all, Register.ofText? r.text.toList = some r ∧ IsWord r.text ∧
      r.text.toList ≠ ['#'] ∧ Lacks (· == '-') r.text := by decide
  obtain ⟨hfirst, hwfirst, hsharp, hplain⟩ := hname first first.mem_all
  obtain ⟨hlast, hwlast, -, hplain'⟩ := hname last last.mem_all
  -- the name of a register is a word without a hyphen, and no sharp
  have hmark : Lacks isGap "-" := by decide
  apply operands?_word ((hwfirst.append hmark).append hwlast.2)
  rw [Operand.ofText?_hyphen hplain hplain', Operand.ofHyphenated?, if_neg hsharp, hfirst, hlast]
  rfl

/-- The characters of numerals. -/
def numeralChars : List Char :=
  "0123456789ABCDEFx".toList

theorem digits_subset (count value : Nat) :
    Numeral.digits .upper 16 count value ⊆ numeralChars := by
  induction count generalizing value with
  | zero => exact List.nil_subset _
  | succ count ih =>
    -- the last digit is one of sixteen
    have hdigit : ∀ d : Fin 16, [Numeral.digit .upper d.val] ⊆ numeralChars := by decide
    exact List.append_subset.2 ⟨ih _, hdigit ⟨value % 16, Nat.mod_lt value (by decide)⟩⟩

theorem magnitude_subset (value : Nat) : (Numeral.magnitude value).toList ⊆ numeralChars := by
  unfold Numeral.magnitude
  split_ifs with hsmall
  · have hdigit : ∀ d : Fin 10, [Numeral.digit .upper d.val] ⊆ numeralChars := by decide
    rw [String.toList_ofList]
    exact hdigit ⟨value, hsmall⟩
  · have hmark : "0x".toList ⊆ numeralChars := by decide
    have hdigits : (Numeral.shortHex value).toList ⊆ numeralChars := by
      rw [Numeral.shortHex, String.toList_ofList]
      exact List.Subset.trans (List.dropWhile_subset _) (digits_subset _ _)
    rw [String.toList_append]
    exact List.append_subset.2 ⟨hmark, hdigits⟩

/-- No character of a numeral is a gap or a hyphen. -/
theorem lacks_of_subset {text : String} (h : text.toList ⊆ numeralChars) :
    Lacks isGap text ∧ Lacks (· == '-') text := by
  have hgap : Lacks isGap "0123456789ABCDEFx" := by decide
  have hhyphen : Lacks (· == '-') "0123456789ABCDEFx" := by decide
  constructor
  · intro char hchar
    exact hgap char (h hchar)
  · intro char hchar
    exact hhyphen char (h hchar)

theorem lacks_magnitude (value : Nat) :
    Lacks isGap (Numeral.magnitude value) ∧ Lacks (· == '-') (Numeral.magnitude value) :=
  lacks_of_subset (magnitude_subset value)

theorem operands?_immediate {value : Nat} (h : value < 16 ^ 8) :
    operands? (Numeral.immediate value) = some [.number false value] := by
  obtain ⟨hgap, hhyphen⟩ := lacks_magnitude value
  have hmark : IsWord "#" ∧ Lacks (· == '-') "#" := by decide
  apply operands?_word (hmark.1.append hgap)
  rw [Operand.ofText?_plain (hmark.2.append hhyphen), String.toList_append]
  show (Numeral.magnitude? (Numeral.magnitude value).toList).map _ = _
  rw [Numeral.magnitude?_magnitude h]
  rfl

theorem operands?_signedImmediate (add : Bool) {value : Nat} (h : value < 16 ^ 8) :
    operands? (Numeral.signedImmediate add value) = some [.number (!add) value] := by
  cases add with
  | true => exact operands?_immediate h
  | false =>
    obtain ⟨hgap, hhyphen⟩ := lacks_magnitude value
    have hmark : IsWord ("#" ++ "-") ∧ Lacks (· == '-') "#" := by decide
    apply operands?_word (hmark.1.append hgap)
    -- the sharp stands before the hyphen, which tells a minus sign from a range
    rw [Operand.ofText?_hyphen hmark.2 hhyphen]
    show (Numeral.magnitude? (Numeral.magnitude value).toList).map _ = _
    rw [Numeral.magnitude?_magnitude h]
    rfl

/-- Amounts of shifts are written in decimal. -/
theorem operands?_amount {amount : Nat} (h : amount ≤ 32) :
    operands? ("#" ++ toString amount) = some [.number false amount] := by
  have hamount : ∀ n : Fin 33, operands? ("#" ++ toString n.val) = some [.number false n.val] := by
    decide
  exact hamount ⟨amount, by omega⟩

theorem operands?_hex {count value : Nat} (h : value < 16 ^ count) :
    operands? ("0x" ++ Numeral.hex count value) = some [.address (.ofNat 32 value)] := by
  have hchars : ("0x" ++ Numeral.hex count value).toList =
      '0' :: 'x' :: Numeral.digits .upper 16 count value := by
    simp [Numeral.hex]
  -- the mark and the digits are characters of numerals, none of which parts words
  have hmark : ['0', 'x'] ⊆ numeralChars := by decide
  have hsubset : ("0x" ++ Numeral.hex count value).toList ⊆ numeralChars := by
    rw [hchars]
    exact List.append_subset.2 ⟨hmark, digits_subset count value⟩
  obtain ⟨hgap, hhyphen⟩ := lacks_of_subset hsubset
  apply operands?_word
  · refine ⟨?_, hgap⟩
    rw [hchars]
    exact List.cons_ne_nil _ _
  · rw [Operand.ofText?_plain hhyphen, hchars]
    show (Numeral.value? 16 (Numeral.digits .upper 16 count value)).map _ = _
    rw [Numeral.value?_digits, Nat.mod_eq_of_lt h]
    rfl

theorem operands?_address (address : Word) :
    operands? (Numeral.address address.toNat) = some [.address address] := by
  have hlt : address.toNat < 16 ^ 8 := address.isLt
  have haddress := operands?_hex hlt
  rw [BitVec.ofNat_toNat, BitVec.setWidth_eq] at haddress
  exact haddress

/-! ### Lines -/

/-- A line of assembly language. -/
structure Line where
  mnemonic : String
  operands : List Operand
deriving DecidableEq, Repr

/-- The line that a text is. -/
def Line.ofText? (text : String) : Option Line :=
  match words text with
  | mnemonic :: rest => (rest.mapM Operand.ofText?).map (.mk mnemonic)
  | [] => none

theorem Line.ofText?_mnemonic {mnemonic gap text : String} {operands : List Operand}
    (hm : IsWord mnemonic) (hg : IsGap gap) (h : operands? text = some operands) :
    ofText? (mnemonic ++ gap ++ text) = some ⟨mnemonic, operands⟩ := by
  unfold operands? at h
  unfold ofText?
  rw [words_gap hg, words_of_isWord hm, List.singleton_append]
  show Option.map _ (List.mapM _ _) = _
  rw [h]
  rfl

theorem Line.ofText?_gap {line : Line} {gap text rest : String} {operands : List Operand}
    (h : ofText? text = some line) (hg : IsGap gap) (hr : operands? rest = some operands) :
    ofText? (text ++ gap ++ rest) = some ⟨line.mnemonic, line.operands ++ operands⟩ := by
  unfold ofText? at h ⊢
  unfold operands? at hr
  rw [words_gap hg]
  -- without a word there is no line to go on
  cases hw : words text with
  | nil =>
    rw [hw] at h
    cases h
  | cons mnemonic ws =>
    rw [hw] at h
    obtain ⟨before, hbefore, rfl⟩ := Option.map_eq_some_iff.1 h
    show Option.map _ (List.mapM _ (ws ++ words rest)) = _
    rw [List.mapM_append, hbefore, hr]
    rfl

section Operands

variable {mnemonic first second third : String} {a b c : List Operand} (hm : IsWord mnemonic)
  (ha : operands? first = some a) (hb : operands? second = some b) (hc : operands? third = some c)

include hm ha

theorem Line.ofText?_one : ofText? (mnemonic ++ " " ++ first) = some ⟨mnemonic, a⟩ :=
  ofText?_mnemonic hm (by decide) ha

include hb

theorem Line.ofText?_two :
    ofText? (mnemonic ++ " " ++ first ++ ", " ++ second) = some ⟨mnemonic, a ++ b⟩ :=
  ofText?_gap (ofText?_one hm ha) (by decide) hb

include hc

theorem Line.ofText?_three :
    ofText? (mnemonic ++ " " ++ first ++ ", " ++ second ++ ", " ++ third) =
      some ⟨mnemonic, a ++ b ++ c⟩ :=
  ofText?_gap (ofText?_two hm ha hb) (by decide) hc

end Operands

theorem operands?_open {gap text : String} {operands : List Operand} (hg : IsGap gap)
    (h : operands? text = some operands) : operands? (gap ++ text) = some operands := by
  unfold operands?
  rw [words_open hg]
  exact h

theorem operands?_close {gap text : String} {operands : List Operand}
    (h : operands? text = some operands) (hg : IsGap gap) :
    operands? (text ++ gap) = some operands := by
  unfold operands?
  rw [words_close hg]
  exact h

/-! ### Lists of registers -/

/-- The registers from one to another, both included. -/
def between (first last : Register) : List Register :=
  (Register.all.drop first.index).take (last.index + 1 - first.index)

/-- The registers that an operand of a list stands for. -/
def Operand.registers : Operand → List Register
  | register named => [named]
  | range first last => between first last
  | _ => []

/-- The operands that a run of registers is written as. -/
def runOperands (first last : Register) : List Operand :=
  match last.index.val - first.index.val with
  | 0 => [.register first]
  | 1 => [.register first, .register last]
  | _ => [.range first last]

/-- The operands that a list of registers is written as. -/
def listOperands (registers : List Register) : List Operand :=
  (runs registers).flatMap fun pair => runOperands pair.1 pair.2

theorem operands?_run (first last : Register) :
    operands? (run first last) = some (runOperands first last) := by
  have hcomma : IsGap ", " := by decide
  unfold run runOperands
  -- only the distance tells a single register, a pair and a range
  generalize last.index.val - first.index.val = distance
  match distance with
  | 0 => exact operands?_register first
  | 1 => exact operands?_gap hcomma (operands?_register first) (operands?_register last)
  | _ + 2 => exact operands?_range first last

theorem operands?_runs (pairs : List (Register × Register)) :
    operands? (", ".intercalate (pairs.map fun (first, last) => run first last)) =
      some (pairs.flatMap fun pair => runOperands pair.1 pair.2) := by
  induction pairs with
  | nil => rfl
  | cons pair more ih =>
    obtain ⟨first, last⟩ := pair
    -- between the first run and the others stands a comma
    cases more with
    | nil =>
      rw [List.flatMap_singleton]
      exact operands?_run first last
    | cons next more =>
      rw [List.map_cons, List.map_cons, String.intercalate_cons_cons, List.flatMap_cons]
      exact operands?_gap (by decide) (operands?_run first last) ih

/-- A list of registers reads as its runs. -/
theorem operands?_registerList (registers : List Register) :
    operands? (registerList registers) = some (listOperands registers) :=
  operands?_close (operands?_open (by decide) (operands?_runs _)) (by decide)

/-- The first of the registers from one to another is followed by the others. -/
theorem between_eq_cons {register first last : Register}
    (hnext : first.index.val = register.index.val + 1) (hle : first.index.val ≤ last.index.val) :
    between register last = register :: between first last := by
  have hall : ∀ r ∈ Register.all, Register.all[r.index.val]? = some r := by decide
  -- the register stands at its own number in the list of all
  obtain ⟨hlength, hget⟩ := List.getElem?_eq_some_iff.1 (hall register register.mem_all)
  have hcount : last.index.val + 1 - register.index.val =
      (last.index.val + 1 - first.index.val) + 1 := by omega
  unfold between
  rw [List.drop_eq_getElem_cons hlength, hget, hcount, List.take_succ_cons, hnext]

theorem between_self (register : Register) : between register register = [register] := by
  have hall : ∀ r ∈ Register.all, between r r = [r] := by decide
  exact hall register register.mem_all

/-- The operands of a run stand for the registers from its first to its last. -/
theorem registers_runOperands {first last : Register}
    (h : first.index.val ≤ last.index.val) :
    (runOperands first last).flatMap Operand.registers = between first last := by
  unfold runOperands
  split
  -- a distance of zero: the run is one register
  case h_1 hdistance =>
    obtain rfl : first = last := Register.index_injective (Fin.ext (by omega))
    exact (between_self first).symm
  case h_2 hdistance =>
    rw [between_eq_cons (show last.index.val = first.index.val + 1 by omega) (Nat.le_refl _),
      between_self]
    rfl
  -- the range stands for its registers as it is
  case h_3 => exact List.flatMap_singleton Operand.registers _

/-- Runs are ascending, and those of a list of registers expand to the list. -/
theorem expand_runs (registers : List Register) :
    (∀ pair ∈ runs registers, pair.1.index.val ≤ pair.2.index.val) ∧
      (runs registers).flatMap (fun pair => between pair.1 pair.2) = registers := by
  induction registers with
  | nil => exact ⟨fun pair h => absurd h List.not_mem_nil, rfl⟩
  | cons register rest ih =>
    obtain ⟨hle, hexpand⟩ := ih
    rw [runs]
    split
    -- the last register makes a run of its own
    case h_1 hruns =>
      rw [hruns] at hexpand
      refine ⟨List.forall_mem_singleton.2 (Nat.le_refl _), ?_⟩
      rw [List.flatMap_singleton, between_self, ← hexpand]
      rfl
    case h_2 first last more hruns =>
      -- the runs of the rest begin with one that the register may come right before
      rw [hruns] at hle hexpand
      rw [List.flatMap_cons] at hexpand
      obtain ⟨hrun, hmore⟩ := List.forall_mem_cons.1 hle
      split_ifs with hnext
      · -- the register lengthens the first run
        have hlong : register.index.val ≤ last.index.val := by
          have hordered : first.index.val ≤ last.index.val := hrun
          omega
        refine ⟨List.forall_mem_cons.2 ⟨hlong, hmore⟩, ?_⟩
        rw [List.flatMap_cons, between_eq_cons hnext hrun, List.cons_append, hexpand]
      -- otherwise the register makes a run of its own before the others
      · refine ⟨List.forall_mem_cons.2 ⟨Nat.le_refl _, hle⟩, ?_⟩
        rw [List.flatMap_cons, List.flatMap_cons, between_self, hexpand]
        rfl

/-- The operands of a list of registers stand for exactly these registers. -/
theorem registers_listOperands (registers : List Register) :
    (listOperands registers).flatMap Operand.registers = registers := by
  obtain ⟨hle, hexpand⟩ := expand_runs registers
  have hpair (pair : Register × Register) (h : pair ∈ runs registers) :
      (runOperands pair.1 pair.2).flatMap Operand.registers = between pair.1 pair.2 :=
    registers_runOperands (hle pair h)
  unfold listOperands
  rw [List.flatMap_assoc, List.flatMap_def, List.map_congr_left hpair, ← List.flatMap_def,
    hexpand]

end Assembly

end Armv4t

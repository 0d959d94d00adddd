import Armv4t.Proofs.Shifter
import Armv4t.Transfer.Single

/-!
# Memories of bytes

A `ByteMap` is what a memory holds, byte by byte.  `ByteMap.read` and `ByteMap.write` are the
little-endian accesses to aligned addresses, and `ByteMap.loaded` is what each load delivers from
any address.  An unsigned load is the aligned value rotated by the misalignment (`loaded_format`),
so that the byte at the address comes lowest in every load (`setWidth_loaded`), and a load after a
store of the same width delivers the stored value rotated (`loaded_write`).  `Bus.KeepsBytes` is
what a bus in front of such a memory is relied on for.
-/

namespace Armv4t

/-- The contents of a memory, byte by byte. -/
abbrev ByteMap := Word → Byte

/-- The word whose bytes are given, the lowest first. -/
def Word.ofBytes (byte : Nat → Byte) : Word :=
  byte 3 ++ byte 2 ++ byte 1 ++ byte 0

namespace Word

theorem getLsbD_ofBytes (byte : Nat → Byte) {i : Nat} (hi : i < 32) :
    (ofBytes byte).getLsbD i = (byte (i / 8)).getLsbD (i % 8) := by
  have hrange : i / 8 = 0 ∨ i / 8 = 1 ∨ i / 8 = 2 ∨ i / 8 = 3 := by omega
  unfold ofBytes
  rw [BitVec.getLsbD_append, BitVec.getLsbD_append, BitVec.getLsbD_append]
  -- one case for each byte: the appended vectors above it are passed by
  rcases hrange with h | h | h | h
  · rw [h, if_pos (by omega)]
    congr 1
    omega
  · rw [h, if_neg (by omega), if_pos (by omega)]
    congr 1
    omega
  · rw [h, if_neg (by omega), if_neg (by omega), if_pos (by omega)]
    congr 1
    omega
  · rw [h, if_neg (by omega), if_neg (by omega), if_neg (by omega)]
    congr 1
    omega

/-- A rotation by whole bytes. -/
theorem rotateRight_ofBytes (byte : Nat → Byte) (count : Nat) :
    (ofBytes byte).rotateRight (8 * count) = ofBytes fun i => byte ((i + count) % 4) := by
  apply BitVec.eq_of_getLsbD_eq
  intro i hi
  have hbyte : (8 * count + i) % 32 / 8 = (i / 8 + count) % 4 := by omega
  have hbit : (8 * count + i) % 32 % 8 = i % 8 := by omega
  rw [ShiftKind.getLsbD_rotateRight _ _ hi, getLsbD_ofBytes _ (Nat.mod_lt _ (by decide)),
    getLsbD_ofBytes _ hi, hbyte, hbit]

/-- A misaligned halfword has its second byte on top. -/
theorem rotateRight_halfword (first second : Byte) :
    ((second ++ first).setWidth 32).rotateRight 8 = first ++ 0#16 ++ second := by
  apply BitVec.eq_of_getLsbD_eq
  intro i hi
  rw [ShiftKind.getLsbD_rotateRight _ _ hi, BitVec.getLsbD_setWidth, BitVec.getLsbD_append,
    BitVec.getLsbD_append, BitVec.getLsbD_append, BitVec.getLsbD_zero]
  grind

end Word

namespace Width

/-- The unsigned load of a width. -/
def format : Width → LoadFormat
  | byte => .byte
  | halfword => .halfword
  | word => .word

/-- The distance of a byte from the beginning of its unit. -/
theorem toNat_add_sub_align (width : Width) (address : Word) {i : Nat} (hi : i < width.bytes) :
    (width.align address + BitVec.ofNat 32 i - width.align address).toNat = i := by
  rw [BitVec.add_comm, BitVec.add_sub_cancel, BitVec.toNat_ofNat]
  cases width <;> simp only [bytes] at hi <;> omega

/-- The halfword around an odd address begins one byte below it. -/
theorem align_halfword_of_odd {address : Word} (h : address.toNat % 2 = 1) :
    halfword.align address = address - 1 := by
  have hpositive : 1 ≤ address.toNat := by omega
  have hone : (1 : Word) ≤ address := BitVec.le_def.2 hpositive
  apply BitVec.eq_of_toNat_eq
  rw [toNat_align, BitVec.toNat_sub_of_le hone]
  exact congrArg (address.toNat - ·) h

/-- The bytes of a unit have its alignment. -/
theorem align_align_add (width : Width) (address : Word) {i : Nat} (hi : i < width.bytes) :
    width.align (width.align address + BitVec.ofNat 32 i) = width.align address := by
  rw [width.align_eq_align_iff, width.toNat_add_sub_align address hi]
  exact hi

end Width

namespace ByteMap

variable (bytes : ByteMap)

/-- The value of the bytes from an address on. -/
def read (width : Width) (address : Word) : BitVec width.bits :=
  (Word.ofBytes fun i => bytes (address + BitVec.ofNat 32 i)).setWidth width.bits

/-- The contents after a store, which replaces the bytes of the aligned unit around its address. -/
def write (width : Width) (address : Word) (value : BitVec width.bits) : ByteMap := fun other =>
  if width.align other = width.align address then
    value.extractLsb' (8 * (other - width.align address).toNat) 8
  else bytes other

/-- What a load from an address delivers.  A word has its bytes in a cycle around the aligned unit,
a misaligned halfword has its second byte on top, and a misaligned signed halfword is a signed
byte. -/
def loaded (format : LoadFormat) (address : Word) : Word :=
  match format with
  | .byte => (bytes address).setWidth 32
  | .halfword =>
    if address.getLsbD 0 then bytes (address - 1) ++ 0#16 ++ bytes address
    else (bytes (address + 1) ++ bytes address).setWidth 32
  | .word =>
    .ofBytes fun i => bytes ((address &&& ~~~3#32) + ((address + BitVec.ofNat 32 i) &&& 3#32))
  | .signedByte => (bytes address).signExtend 32
  | .signedHalfword =>
    if address.getLsbD 0 then (bytes address).signExtend 32
    else (bytes (address + 1) ++ bytes address).signExtend 32

/-! ### Aligned accesses -/

theorem getLsbD_read {width : Width} {i : Nat} (hi : i < width.bits) (address : Word) :
    (bytes.read width address).getLsbD i =
      (bytes (address + BitVec.ofNat 32 (i / 8))).getLsbD (i % 8) := by
  have hword : i < 32 := by
    cases width <;> simp only [Width.bits] at hi <;> omega
  unfold read
  rw [BitVec.getLsbD_setWidth, decide_eq_true hi, Bool.true_and, Word.getLsbD_ofBytes _ hword]

theorem read_byte (address : Word) : bytes.read .byte address = bytes address := by
  apply BitVec.eq_of_getLsbD_eq
  intro i hi
  have hi : i < 8 := hi
  have hbyte : i / 8 = 0 := by omega
  have hbit : i % 8 = i := by omega
  rw [getLsbD_read _ hi, hbyte, hbit]
  exact congrArg (fun other => (bytes other).getLsbD i) (BitVec.add_zero address)

theorem read_halfword (address : Word) :
    bytes.read .halfword address = bytes (address + 1) ++ bytes address := by
  apply BitVec.eq_of_getLsbD_eq
  intro i hi
  have hi : i < 16 := hi
  rw [getLsbD_read _ hi, BitVec.getLsbD_append]
  -- the lower byte comes from the lower address
  split_ifs with hlow
  · have hbyte : i / 8 = 0 := by omega
    have hbit : i % 8 = i := by omega
    rw [hbyte, hbit]
    exact congrArg (fun other => (bytes other).getLsbD i) (BitVec.add_zero address)
  · have hbyte : i / 8 = 1 := by omega
    have hbit : i % 8 = i - 8 := by omega
    rw [hbyte, hbit]
    rfl

theorem write_align (width : Width) (address : Word) (value : BitVec width.bits) :
    bytes.write width (width.align address) value = bytes.write width address value := by
  unfold write
  rw [width.align_align]

/-- A stored value is read back. -/
theorem read_write (width : Width) (address : Word) (value : BitVec width.bits) :
    (bytes.write width address value).read width (width.align address) = value := by
  -- bit `i` of the value is bit `i % 8` of byte `i / 8` of the unit
  apply BitVec.eq_of_getLsbD_eq
  intro i hi
  have hbits := width.bits_eq
  have hbyte : i / 8 < width.bytes := by omega
  rw [getLsbD_read _ hi, write, if_pos (width.align_align_add address hbyte),
    width.toNat_add_sub_align address hbyte, BitVec.getLsbD_extractLsb',
    decide_eq_true (Nat.mod_lt i (by decide)), Bool.true_and, Nat.div_add_mod]

/-- A store leaves the other units as they are. -/
theorem read_write_of_ne {width : Width} {address other : Word}
    (hne : width.align other ≠ width.align address) (value : BitVec width.bits) :
    (bytes.write width address value).read width (width.align other) =
      bytes.read width (width.align other) := by
  apply BitVec.eq_of_getLsbD_eq
  intro i hi
  have hbits := width.bits_eq
  have hbyte : i / 8 < width.bytes := by omega
  have hunit := width.align_align_add other hbyte
  rw [getLsbD_read _ hi, getLsbD_read _ hi, write, if_neg fun heq => hne (hunit.symm.trans heq)]

/-! ### Loads -/

/-- The places of the bytes of a word, counted around it from an address on. -/
theorem add_and_three (address : Word) (i : Nat) :
    ((address + BitVec.ofNat 32 i) &&& 3#32) = BitVec.ofNat 32 ((i + address.toNat % 4) % 4) := by
  apply BitVec.eq_of_toNat_eq
  simp only [BitVec.toNat_and, BitVec.toNat_add, BitVec.toNat_ofNat]
  change (address.toNat + i % 2 ^ 32) % 2 ^ 32 &&& (2 ^ 2 - 1) = _
  rw [Nat.and_two_pow_sub_one_eq_mod]
  omega

/-- An unsigned load delivers the aligned value rotated. -/
theorem loaded_format (width : Width) (address : Word) :
    bytes.loaded width.format address =
      ((bytes.read width (width.align address)).setWidth 32).rotateRight
        (width.rotation address) := by
  -- a byte is not rotated
  cases width with
  | byte =>
    have hread : bytes.read .byte (Width.byte.align address) = bytes address :=
      bytes.read_byte address
    rw [hread]
    exact (ShiftKind.moved_zero .ror _).symm
  | halfword =>
    have hrotation : Width.halfword.rotation address = 8 * (address.toNat % 2) :=
      Width.halfword.rotation_eq address
    have hparity : address.getLsbD 0 = decide (address.toNat % 2 = 1) := Nat.testBit_zero _
    rw [Width.format, loaded, hrotation, hparity, read_halfword]
    -- from an odd address the bytes change places
    by_cases hodd : address.toNat % 2 = 1
    · rw [Width.align_halfword_of_odd hodd, BitVec.sub_add_cancel, hodd,
        Word.rotateRight_halfword, decide_eq_true rfl, if_pos rfl]
    · have heven : address.toNat % 2 = 0 := by omega
      rw [(Width.halfword.align_eq_self_iff address).2 heven, heven, decide_eq_false (by decide),
        if_neg (by decide)]
      exact (ShiftKind.moved_zero .ror _).symm
  -- the four bytes begin at any of them, and the others follow round
  | word =>
    have hread : (bytes.read .word (Width.word.align address)).setWidth 32 =
        Word.ofBytes fun i => bytes ((address &&& ~~~3#32) + BitVec.ofNat 32 i) :=
      (BitVec.setWidth_eq _).trans (BitVec.setWidth_eq _)
    have hrotation : Width.word.rotation address = 8 * (address.toNat % 4) :=
      Width.word.rotation_eq address
    rw [hread, hrotation, Word.rotateRight_ofBytes]
    simp only [Width.format, loaded, add_and_three]

/-- From memory that holds the low byte of each address. -/
example : ByteMap.loaded (fun address => address.setWidth 8) .word 0x101 = 0x00030201 := by decide

/-- A load after a store of the same width to the same address. -/
theorem loaded_write (width : Width) (address : Word) (value : BitVec width.bits) :
    (bytes.write width address value).loaded width.format address =
      (value.setWidth 32).rotateRight (8 * (address.toNat % width.bytes)) := by
  rw [loaded_format, read_write, Width.rotation_eq]

/-- The low byte that is loaded is the byte at the address. -/
theorem setWidth_loaded (format : LoadFormat) (address : Word) :
    (bytes.loaded format address).setWidth 8 = bytes address := by
  apply BitVec.eq_of_getLsbD_eq
  intro i hi
  have hword : i < 32 := by omega
  rw [BitVec.getLsbD_setWidth, decide_eq_true hi, Bool.true_and]
  -- each format has the addressed byte as its lowest
  cases format with
  | byte =>
    rw [loaded, BitVec.getLsbD_setWidth, decide_eq_true hword, Bool.true_and]
  | halfword =>
    rw [loaded]
    split_ifs
    · rw [BitVec.getLsbD_append, if_pos hi]
    · rw [BitVec.getLsbD_setWidth, decide_eq_true hword, Bool.true_and, BitVec.getLsbD_append,
        if_pos hi]
  -- of a word, the byte that the address picks is rotated to the lowest place
  | word =>
    have hbyte : i / 8 = 0 := by omega
    have hbit : i % 8 = i := by omega
    have haddress : (address &&& ~~~3#32) + ((address + BitVec.ofNat 32 0) &&& 3#32) = address := by
      rw [BitVec.add_zero, Width.and_not_add_and]
    rw [loaded, Word.getLsbD_ofBytes _ hword, hbyte, hbit, haddress]
  | signedByte =>
    rw [loaded, BitVec.getLsbD_signExtend, decide_eq_true hword, Bool.true_and, if_pos hi]
  | signedHalfword =>
    have hhalfword : i < 8 + 8 := by omega
    rw [loaded]
    split_ifs
    · rw [BitVec.getLsbD_signExtend, decide_eq_true hword, Bool.true_and, if_pos hi]
    · rw [BitVec.getLsbD_signExtend, decide_eq_true hword, Bool.true_and, if_pos hhalfword,
        BitVec.getLsbD_append, if_pos hi]

end ByteMap

/-! ### Buses -/

/-- A bus serves every aligned access from a memory of bytes: it reads their contents, takes every
store, and forgets nothing when it is told of cycles or of a branch.  `holds` says which contents
the memory has in a state of the bus. -/
structure Bus.KeepsBytes {σ : Type} (bus : Bus σ) (holds : σ → ByteMap → Prop) : Prop where
  read {state : σ} {bytes : ByteMap} (h : holds state bytes) {width : Width} {address : Word}
    (ha : width.align address = address) :
    (bus.answer (.read width address) state).1 = .ok (bytes.read width address) ∧
      holds (bus.answer (.read width address) state).2 bytes
  write {state : σ} {bytes : ByteMap} (h : holds state bytes) {width : Width} {address : Word}
    (ha : width.align address = address) (value : BitVec width.bits) :
    (bus.answer (.write width address value) state).1 = .ok () ∧
      holds (bus.answer (.write width address value) state).2 (bytes.write width address value)
  charge {state : σ} {bytes : ByteMap} (h : holds state bytes) (cycles : Nat) :
    holds (bus.answer (.charge cycles) state).2 bytes
  branch {state : σ} {bytes : ByteMap} (h : holds state bytes) (target : Word)
    (set : InstructionSet) : holds (bus.answer (.branch target set) state).2 bytes

end Armv4t

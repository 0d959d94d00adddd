import Armv4t.Memory
import Armv4t.Proofs.ByteMemory
import Armv4t.Proofs.Stack

/-!
# Memories behind a bus

A memory holds the bytes that are stored in it (`byte_store`) and loads their values
(`load_eq_read`).  `Memory.bus` keeps the words of every block of aligned addresses that its regions
let it write (`keepsWords`), and all bytes when there is a region of all addresses (`keepsBytes`).
-/

namespace Armv4t

/-- The region of all addresses. -/
def Region.whole : Region where
  base := 0
  size := 0x100000000

namespace Memory

/-! ### Bytes -/

/-- Consecutive bytes have been stored, and all others are as they were. -/
theorem byte_storeBytes (memory : Memory) (address other : Word) {stored : List Byte}
    (hlen : stored.length < 0x100000000) :
    (memory.storeBytes address stored).byte other =
      stored[(other - address).toNat]?.getD (memory.byte other) := by
  induction stored generalizing memory address with
  | nil => rfl
  | cons value rest ih =>
    rw [List.length_cons] at hlen
    rw [storeBytes, ih _ _ (by omega), byte_storeByte]
    by_cases heq : address = other
    · -- the distance from the next address wraps around, past the end of the rest
      have hzero : (other - address).toNat = 0 := by rw [heq, BitVec.sub_self]; rfl
      have hlast : (other - (address + 1)).toNat = 0xFFFFFFFF := by bv_omega
      rw [if_pos heq, hzero, hlast, List.getElem?_eq_none (by omega)]
      rfl
    · have hsucc : (other - address).toNat = (other - (address + 1)).toNat + 1 := by bv_omega
      rw [if_neg heq, hsucc, List.getElem?_cons_succ]

theorem length_littleEndian (width : Width) (value : BitVec width.bits) :
    (littleEndian width value).length = width.bytes := by
  cases width <;> rfl

theorem getElem?_littleEndian (width : Width) (value : BitVec width.bits) (i : Nat) :
    (littleEndian width value)[i]? =
      if i < width.bytes then some (value.extractLsb' (8 * i) 8) else none := by
  cases width with
  | byte =>
    rcases i with _ | _
    · exact congrArg some BitVec.extractLsb'_eq_self.symm
    · rfl
  | halfword => rcases i with _ | _ | _ <;> rfl
  | word => rcases i with _ | _ | _ | _ | _ <;> rfl

theorem byte_store (memory : Memory) {width : Width} {address : Word}
    (ha : width.align address = address) (value : BitVec width.bits) :
    (memory.store width address value).byte = ByteMap.write memory.byte width address value := by
  funext other
  have hlen : (littleEndian width value).length < 0x100000000 := by
    rw [length_littleEndian]
    cases width <;> decide
  -- an address is among the bytes of the unit exactly if it aligns to the same address
  have hunit := width.align_eq_align_iff address other
  rw [ha] at hunit
  rw [store, byte_storeBytes _ _ _ hlen, getElem?_littleEndian, ByteMap.write, ha]
  by_cases h : (other - address).toNat < width.bytes
  · rw [if_pos h, if_pos (hunit.2 h)]
    rfl
  · rw [if_neg h, if_neg fun heq => h (hunit.1 heq)]
    rfl

theorem load_eq_read (memory : Memory) (width : Width) (address : Word) :
    memory.load width address = ByteMap.read memory.byte width address := by
  cases width with
  | byte => exact (ByteMap.read_byte memory.byte address).symm
  | halfword => exact (ByteMap.read_halfword memory.byte address).symm
  | word =>
    have hfirst : memory.byte (address + BitVec.ofNat 32 0) = memory.byte address :=
      congrArg memory.byte (BitVec.add_zero address)
    rw [ByteMap.read, Word.ofBytes, hfirst]
    exact (BitVec.setWidth_eq _).symm

/-- A stored value is read back. -/
theorem load_store (memory : Memory) {width : Width} {address : Word}
    (ha : width.align address = address) (value : BitVec width.bits) :
    (memory.store width address value).load width address = value := by
  have hread := ByteMap.read_write memory.byte width address value
  rw [ha] at hread
  rw [load_eq_read, memory.byte_store ha, hread]

/-- Distinct aligned units have no byte in common. -/
theorem load_store_of_ne (memory : Memory) {width : Width} {address other : Word}
    (ha : width.align address = address) (ho : width.align other = other) (hne : other ≠ address)
    (value : BitVec width.bits) :
    (memory.store width address value).load width other = memory.load width other := by
  have hunits : width.align other ≠ width.align address := by
    rw [ha, ho]
    exact hne
  have hread := ByteMap.read_write_of_ne memory.byte hunits value
  rw [ho] at hread
  rw [load_eq_read, load_eq_read, memory.byte_store ha, hread]

/-! ### The bus -/

/-- A read within a region does not fail. -/
theorem readFault?_eq_none {memory : Memory} {width : Width} {address : Word} {region : Region}
    (h : memory.region? address width = some region) : memory.readFault? width address = none := by
  unfold readFault?
  rw [h]
  rfl

/-- A write within a region that is not read only does not fail. -/
theorem writeFault?_eq_none {memory : Memory} {width : Width} {address : Word} {region : Region}
    (h : memory.region? address width = some region) (hw : region.readOnly = false) :
    memory.writeFault? width address = none := by
  unfold writeFault?
  rw [h]
  dsimp only
  rw [hw]
  rfl

theorem answer_read {memory : Memory} {width : Width} {address : Word}
    (h : memory.readFault? width address = none) :
    bus.answer (.read width address) memory = (.ok (memory.load width address), memory) := by
  unfold bus
  dsimp only
  rw [h]

theorem answer_write {memory : Memory} {width : Width} {address : Word}
    (h : memory.writeFault? width address = none) (value : BitVec width.bits) :
    bus.answer (.write width address value) memory =
      (.ok (), memory.store width address value) := by
  unfold bus
  dsimp only
  rw [h]

/-- The memory bus keeps the words of a block of aligned addresses that it may write. -/
theorem keepsWords {block : Word → Prop} {regions : List Region}
    (hb : ∀ address, block address → Width.word.align address = address ∧
      ∃ region, regions.find? (·.contains address .word) = some region ∧
        region.readOnly = false) :
    bus.KeepsWords block fun memory words => memory.regions = regions ∧
      ∀ address value, words address = some value →
        block address ∧ memory.load .word address = value where
  write := by
    rintro memory words address ⟨rfl, hheld⟩ ha value
    obtain ⟨haligned, region, hregion, hwritable⟩ := hb address ha
    rw [answer_write (writeFault?_eq_none hregion hwritable)]
    refine ⟨rfl, regions_storeBytes _ _ _, fun other held hother => ?_⟩
    -- the word just stored, or one stored before in another unit
    by_cases hs : other = address
    · rw [hs, Function.update_self] at hother
      rw [hs, memory.load_store haligned]
      exact ⟨ha, Option.some.inj hother⟩
    · rw [Function.update_of_ne hs] at hother
      obtain ⟨hblock, hload⟩ := hheld other held hother
      rw [memory.load_store_of_ne haligned (hb other hblock).1 hs]
      exact ⟨hblock, hload⟩
  read := by
    -- what is held is readable, as its region was found
    rintro memory words address value ⟨rfl, hheld⟩ hw
    obtain ⟨hblock, hload⟩ := hheld address value hw
    obtain ⟨-, region, hregion, -⟩ := hb address hblock
    rw [answer_read (readFault?_eq_none hregion), hload]
    exact ⟨rfl, rfl, hheld⟩
  charge h _ := h
  branch h _ _ := h

/-- Every aligned access lies in the region of all addresses. -/
theorem contains_whole {width : Width} {address : Word} (ha : width.align address = address) :
    Region.whole.contains address width = true := by
  rw [Width.align_eq_self_iff] at ha
  have hlt := address.isLt
  have hlast : address.toNat + width.bytes ≤ 0 + 0x100000000 := by
    cases width <;> simp only [Width.bytes] at * <;> omega
  exact decide_eq_true ⟨Nat.zero_le _, hlast⟩

theorem region?_whole {memory : Memory} (hr : memory.regions = [.whole]) {width : Width}
    {address : Word} (ha : width.align address = address) :
    memory.region? address width = some .whole := by
  unfold region?
  rw [hr]
  exact List.find?_cons_of_pos (contains_whole ha)

/-- A memory with the region of all addresses keeps its bytes. -/
theorem keepsBytes :
    bus.KeepsBytes fun memory bytes => memory.regions = [.whole] ∧ memory.byte = bytes where
  read := by
    rintro memory _ ⟨hr, rfl⟩ width address ha
    rw [answer_read (readFault?_eq_none (region?_whole hr ha)), load_eq_read]
    exact ⟨rfl, hr, rfl⟩
  write := by
    rintro memory _ ⟨hr, rfl⟩ width address ha value
    rw [answer_write (writeFault?_eq_none (region?_whole hr ha) rfl)]
    exact ⟨rfl, (regions_storeBytes _ _ _).trans hr, memory.byte_store ha value⟩
  charge h _ := h
  branch h _ _ := h

end Memory

end Armv4t

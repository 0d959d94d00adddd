import Armv4t.Word

/-!
# Kinds of Thumb instructions

The high byte of a Thumb opcode decides which of nineteen formats it has.
-/

namespace Armv4t

/-- The formats of Thumb instructions. -/
inductive ThumbKind where
  | shiftedMove
  | addSubtract
  | immediate
  | alu
  | highRegister
  | pcRelativeLoad
  | registerOffset
  | signExtended
  | immediateOffset
  | halfword
  | spRelative
  | loadAddress
  | adjustStack
  | pushPop
  | multiple
  | conditionalBranch
  | softwareInterrupt
  | branch
  | longBranch
  | undefined
deriving DecidableEq, Repr

namespace ThumbKind

/-- The format of an opcode with a given high byte. -/
def ofHighByte (byte : Byte) : ThumbKind :=
  if byte < 0x18 then shiftedMove
  else if byte < 0x20 then addSubtract
  else if byte < 0x40 then immediate
  else if byte < 0x44 then alu
  else if byte < 0x48 then highRegister
  else if byte < 0x50 then pcRelativeLoad
  else if byte < 0x60 then (if byte.getLsbD 1 then signExtended else registerOffset)
  else if byte < 0x80 then immediateOffset
  else if byte < 0x90 then halfword
  else if byte < 0xA0 then spRelative
  else if byte < 0xB0 then loadAddress
  else if byte = 0xB0 then adjustStack
  else if byte = 0xB4 ∨ byte = 0xB5 ∨ byte = 0xBC ∨ byte = 0xBD then pushPop
  else if byte < 0xC0 then undefined
  else if byte < 0xD0 then multiple
  else if byte < 0xDE then conditionalBranch
  else if byte = 0xDE then undefined
  else if byte = 0xDF then softwareInterrupt
  else if byte < 0xE8 then branch
  else if byte < 0xF0 then undefined
  else longBranch

/-- The format of an opcode. -/
def ofOpcode (opcode : Halfword) : ThumbKind :=
  ofHighByte (opcode.extractLsb' 8 8)

/-- What the format is called. -/
def text : ThumbKind → String
  | shiftedMove => "move shifted register"
  | addSubtract => "add/subtract"
  | immediate => "move/compare/add/subtract immediate"
  | alu => "alu operation"
  | highRegister => "hi register operation/bx"
  | pcRelativeLoad => "pc-relative load"
  | registerOffset => "load/store with register offset"
  | signExtended => "load/store sign-extended byte/halfword"
  | immediateOffset => "load/store with immediate offset"
  | halfword => "load/store halfword"
  | spRelative => "sp-relative load/store"
  | loadAddress => "load address"
  | adjustStack => "add offset to stack pointer"
  | pushPop => "push/pop"
  | multiple => "multiple load/store"
  | conditionalBranch => "conditional branch"
  | softwareInterrupt => "swi"
  | branch => "b"
  | longBranch => "bl"
  | undefined => "undefined"

end ThumbKind

end Armv4t

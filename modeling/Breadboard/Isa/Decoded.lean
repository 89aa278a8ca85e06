import Breadboard.Isa.Instruction

/-!
# Reading an instruction back

A byte that is no opcode is data and not an error: whoever walks over uninitialised
memory has to be able to step over it. It counts as one byte.
-/

namespace Breadboard

/-- What a byte in program memory is read as. -/
inductive Decoded where
  | known (instruction : Instruction)
  | unknown (byte : UInt8)
deriving DecidableEq, Repr

namespace Decoded

def size (mode : AddressMode) : Decoded → Nat
  | known instruction => instruction.size mode
  | unknown _ => 1

def instruction? : Decoded → Option Instruction
  | known instruction => some instruction
  | unknown _ => none

def mnemonic? (decoded : Decoded) : Option Mnemonic :=
  decoded.instruction?.map (·.mnemonic)

def isUnknown : Decoded → Bool
  | known _ => false
  | unknown _ => true

/-- Reads an opcode byte on its own, with every constant, RAM address and jump
target zero. -/
def ofOpcode (byte : UInt8) : Decoded :=
  match Mnemonic.ofOpcode? byte with
  | some mnemonic => known (mnemonic.unpack byte)
  | none => unknown byte

/-- Fills in what the bytes after the opcode say. -/
def complete (mode : AddressMode) (payload : List UInt8) : Decoded → Decoded
  | known instruction => known (instruction.withPayload mode payload)
  | unknown byte => unknown byte

/-- Reads an opcode together with those of the following bytes that belong to it. -/
def ofBytes (mode : AddressMode) (opcode : UInt8) (following : List UInt8) : Decoded :=
  let front := ofOpcode opcode
  front.complete mode (following.take (front.size mode - 1))

/-- Reads the front of a list of bytes, if there is one. -/
def atFront? (mode : AddressMode) : List UInt8 → Option Decoded
  | [] => none
  | opcode :: following => some (ofBytes mode opcode following)

/-- The instruction as a source line, or a byte that is none. -/
def text : Decoded → String
  | known instruction => instruction.text
  | unknown byte => "??? 0x" ++ hex 2 byte.toNat

theorem size_complete (mode : AddressMode) (payload : List UInt8) (decoded : Decoded) :
    (decoded.complete mode payload).size mode = decoded.size mode := by
  cases decoded with
  | known instruction =>
    simp [complete, size, Instruction.size, Instruction.mnemonic_withPayload]
  | unknown byte => rfl

theorem size_pos (mode : AddressMode) (decoded : Decoded) : 0 < decoded.size mode := by
  cases decoded with
  | known instruction => exact instruction.mnemonic.shape.size_pos mode
  | unknown byte => exact Nat.one_pos

theorem size_le_three (mode : AddressMode) (decoded : Decoded) : decoded.size mode ≤ 3 := by
  cases decoded with
  | known instruction => exact instruction.mnemonic.shape.size_le_three mode
  | unknown byte => exact (by decide : 1 ≤ 3)

end Decoded

end Breadboard

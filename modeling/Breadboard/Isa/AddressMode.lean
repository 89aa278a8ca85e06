/-!
# Memory sizes and the width of jump addresses

Program memory (ROM) has 2048 bytes and data memory (RAM) has 16. A jump names its
target with one byte, which reaches the first 256 bytes of ROM, or with two, which
reach all of it. The choice is made once for a whole image.
-/

namespace Breadboard

def romSize : Nat := 2048

def ramSize : Nat := 16

/-- The byte of an erased ROM cell, with which images are filled up. -/
def padByte : UInt8 := 0xFF

/-- The width of jump addresses. -/
inductive AddressMode where
  | eightBit
  | elevenBit
deriving DecidableEq, Repr

namespace AddressMode

/-- The encoded length of a jump, its opcode included. -/
def jumpSize : AddressMode → Nat
  | eightBit => 2
  | elevenBit => 3

/-- The first address that a jump cannot name. -/
def limit : AddressMode → Nat
  | eightBit => 256
  | elevenBit => romSize

def text : AddressMode → String
  | eightBit => "8-bit"
  | elevenBit => "11-bit"

/-- The bytes after the opcode of a jump: the low byte of the target, preceded by
the high byte where two are written. -/
def targetBytes (target : UInt16) : AddressMode → List UInt8
  | eightBit => [target.toUInt8]
  | elevenBit => [(target >>> 8).toUInt8, target.toUInt8]

/-- The jump target in the bytes after an opcode. Bytes that are missing count as
zero and bytes that do not belong to the target are not looked at. -/
def readTarget (payload : List UInt8) : AddressMode → UInt16
  | eightBit => (payload.getD 0 0).toUInt16
  | elevenBit => (payload.getD 0 0).toUInt16 <<< 8 ||| (payload.getD 1 0).toUInt16

theorem length_targetBytes (target : UInt16) (mode : AddressMode) :
    (mode.targetBytes target).length + 1 = mode.jumpSize := by
  cases mode <;> rfl

end AddressMode

end Breadboard

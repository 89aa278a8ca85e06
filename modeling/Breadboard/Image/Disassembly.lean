import Breadboard.Isa.Decoded
import Breadboard.Text.Column

/-!
# Disassembly

An image is read from address zero on, one instruction after the other, and no further
than the end of ROM. The last instruction may be cut off by the end of the image; it
then shows the bytes that are there and reads the missing ones as zero.
-/

namespace Breadboard

structure DisassemblyLine where
  address : Nat
  decoded : Decoded
  /-- The bytes of the image that it was read from. -/
  raw : List UInt8
deriving DecidableEq, Repr

namespace DisassemblyLine

def text (line : DisassemblyLine) : String :=
  hex 4 line.address ++ ":  " ++ padRight 10 (hexBytes line.raw) ++ " " ++ line.decoded.text

end DisassemblyLine

/-- Reads all of the bytes, the first of which stands at the given address. -/
def disassembleFrom (mode : AddressMode) (address : Nat) : List UInt8 → List DisassemblyLine
  | [] => []
  | opcode :: following =>
    let decoded := Decoded.ofBytes mode opcode following
    let size := decoded.size mode
    ⟨address, decoded, opcode :: following.take (size - 1)⟩ ::
      disassembleFrom mode (address + size) (following.drop (size - 1))
termination_by bytes => bytes.length
decreasing_by
  simp only [List.length_drop, List.length_cons]
  omega

/-- Reads an image. Bytes that do not fit into ROM are left out. -/
def disassemble (mode : AddressMode) (image : List UInt8) : List DisassemblyLine :=
  disassembleFrom mode 0 (image.take romSize)

/-- The instructions of an image as a source text, each on a line of its own. -/
def sourceOfImage (mode : AddressMode) (image : List UInt8) : String :=
  String.intercalate "\n" ((disassemble mode image).map (·.decoded.text))

end Breadboard

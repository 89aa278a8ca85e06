import Breadboard.Isa.Instruction

/-!
# Program memory and data memory

A program is copied into ROM as a whole or not at all. RAM is addressed with the low
four bits of a byte, so that every address is in range: `Ram.read_write` says what a
write leaves to be read, and `Rom.toList_overwrite` what a loaded program leaves of the
ROM around it.
-/

namespace Breadboard

inductive LoadError where
  /-- The first byte would lie behind the end of ROM. -/
  | startOutOfRange (start : Nat)
  /-- The last byte would lie behind the end of ROM. -/
  | overflow (start length : Nat)
deriving DecidableEq, Repr

namespace LoadError

def message : LoadError → String
  | startOutOfRange start =>
    "Start address 0x" ++ hex 4 start ++ " exceeds ROM size of " ++ decimal romSize ++ " bytes"
  | overflow start length =>
    "Program of " ++ decimal length ++ " bytes at 0x" ++ hex 4 start ++ " overflows ROM size of " ++
      decimal romSize ++ " bytes"

end LoadError

abbrev Rom := Vector UInt8 romSize

namespace Rom

/-- Program memory that was never written. It reads as instructions that do
nothing. -/
def blank : Rom := Vector.replicate romSize 0

/-- Program memory with the bytes from an address on replaced. -/
def overwrite (rom : Rom) (bytes : List UInt8) (start : Nat)
    (fits : start + bytes.length ≤ romSize) : Rom :=
  ⟨(rom.toList.take start ++ bytes ++ rom.toList.drop (start + bytes.length)).toArray, by
    simp only [List.size_toArray, List.length_append, List.length_take, List.length_drop,
      Vector.length_toList]
    omega⟩

theorem toList_overwrite (rom : Rom) (bytes : List UInt8) (start : Nat)
    (fits : start + bytes.length ≤ romSize) :
    (rom.overwrite bytes start fits).toList =
      rom.toList.take start ++ bytes ++ rom.toList.drop (start + bytes.length) := rfl

/-- Copies a program to an address, and gives the fault for which it did not and program
memory behind that. The rest of ROM is kept. A start behind the end of ROM is reported even
if the program is too long as well. -/
def load (rom : Rom) (bytes : List UInt8) (start : Nat) : Option LoadError × Rom :=
  if start < romSize then
    if fits : start + bytes.length ≤ romSize then (none, rom.overwrite bytes start fits)
    else (some (.overflow start bytes.length), rom)
  else (some (.startOutOfRange start), rom)

/-- The byte at an address. There is none behind the end of ROM. -/
def read? (rom : Rom) (address : Nat) : Option UInt8 := rom[address]?

/-- The bytes from an address on that can belong to one instruction: three of them,
or fewer at the end of ROM. -/
def window (rom : Rom) (address : Nat) : List UInt8 :=
  (rom.extract address (address + 3)).toList

theorem window_eq (rom : Rom) (address : Nat) :
    rom.window address = (rom.toList.drop address).take 3 := by
  simp [window, Vector.toList_extract]

end Rom

abbrev Ram := Vector UInt8 ramSize

namespace Ram

def blank : Ram := Vector.replicate ramSize 0

def cell (address : UInt8) : Fin ramSize :=
  ⟨address.toNat % ramSize, Nat.mod_lt _ (by decide)⟩

def read (address : UInt8) (ram : Ram) : UInt8 :=
  ram[(cell address).val]

def write (address value : UInt8) (ram : Ram) : Ram :=
  ram.set (cell address).val value (cell address).isLt

/-- A write is seen at every address of the same cell and at no other. -/
theorem read_write (ram : Ram) (target address value : UInt8) :
    (ram.write target value).read address =
      if cell target = cell address then value else ram.read address := by
  simp only [read, write, Vector.getElem_set, Fin.ext_iff]

end Ram

end Breadboard

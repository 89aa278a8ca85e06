import Breadboard.Text.Letters

/-!
# Registers

The machine has four registers of eight bits. An opcode names one of them with two
bits, a source line with one letter in either case.
-/

namespace Breadboard

inductive Register where
  | a
  | b
  | c
  | d
deriving DecidableEq, Repr

namespace Register

/-- The registers in the order of their codes. -/
def all : List Register := [a, b, c, d]

/-- The two bits that name the register in an opcode. -/
def code : Register → UInt8
  | a => 0
  | b => 1
  | c => 2
  | d => 3

/-- The register that the low two bits of a byte name. -/
def ofCode (code : UInt8) : Register :=
  match (code &&& 3).toNat with
  | 0 => a
  | 1 => b
  | 2 => c
  | _ => d

def text : Register → String
  | a => "A"
  | b => "B"
  | c => "C"
  | d => "D"

/-- The register with a given name, in either case. -/
def ofText? (text : String) : Option Register :=
  all.find? (sameLetters ·.text text)

theorem mem_all (register : Register) : register ∈ all := by
  cases register <;> decide

@[simp] theorem ofCode_code (register : Register) : ofCode register.code = register := by
  cases register <;> rfl

end Register

end Breadboard

import Breadboard.Isa.Register
import Breadboard.Text.Radix

/-!
# The register file

One byte for each register. `RegisterFile.read_write` says that a write is seen by a
read of the same register and by no other.
-/

namespace Breadboard

/-- The bytes in the registers. -/
structure RegisterFile where
  a : UInt8 := 0
  b : UInt8 := 0
  c : UInt8 := 0
  d : UInt8 := 0
deriving DecidableEq, Repr

namespace RegisterFile

def read (register : Register) (file : RegisterFile) : UInt8 :=
  match register with
  | .a => file.a
  | .b => file.b
  | .c => file.c
  | .d => file.d

def write (register : Register) (value : UInt8) (file : RegisterFile) : RegisterFile :=
  match register with
  | .a => { file with a := value }
  | .b => { file with b := value }
  | .c => { file with c := value }
  | .d => { file with d := value }

theorem read_write (file : RegisterFile) (target other : Register) (value : UInt8) :
    (file.write target value).read other = if other = target then value else file.read other := by
  cases target <;> cases other <;> rfl

/-- The bytes in the order of the registers. -/
def cells (file : RegisterFile) : List UInt8 :=
  Register.all.map file.read

/-- The registers on one line, `A:00 B:7F C:00 D:FF`. -/
def text (file : RegisterFile) : String :=
  String.intercalate " " (Register.all.map fun register =>
    register.text ++ ":" ++ hex 2 (file.read register).toNat)

end RegisterFile

end Breadboard

import Breadboard.Text.Radix

/-!
# Signed and unsigned bytes

A byte stands for a number from 0 to 255 or, in two's complement, for one from -128 to
127. The choice decides which constants a source line may hold and how a byte is shown.
-/

namespace Breadboard

/-- How a byte is read as a number. -/
inductive Signedness where
  | signed
  | unsigned
deriving DecidableEq, Repr

namespace Signedness

def text : Signedness → String
  | signed => "signed"
  | unsigned => "unsigned"

/-- The least number that a constant may be. -/
def lowest : Signedness → Int
  | signed => -128
  | unsigned => 0

/-- The byte of a constant. Signed constants reach up to 255 like unsigned ones, and
a negative one is stored in two's complement. -/
def byte? (signedness : Signedness) (number : Int) : Option UInt8 :=
  if signedness.lowest ≤ number ∧ number ≤ 255 then some (UInt8.ofInt number) else none

def write (byte : UInt8) : Signedness → String
  | signed => signedDecimal byte.toInt8.toInt
  | unsigned => decimal byte.toNat

end Signedness

end Breadboard

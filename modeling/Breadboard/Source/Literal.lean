import Breadboard.Text.Radix

/-!
# Number literals

A literal is a numeral with an optional minus sign: decimal, hexadecimal after `0x` or
`$`, or binary after `0b` or `%`, in either case of letters. Its magnitude has to fit
into sixty-three bits.
-/

namespace Breadboard

namespace Literal

/-- The first magnitude that is too large. -/
def magnitudeLimit : Nat := 0x8000000000000000

/-- Splits a numeral without its sign into the radix that its first characters announce
and its digits. -/
def radixAndDigits : List Char → Radix × List Char
  | '$' :: digits => (.hexadecimal, digits)
  | '%' :: digits => (.binary, digits)
  | '0' :: 'x' :: digits | '0' :: 'X' :: digits => (.hexadecimal, digits)
  | '0' :: 'b' :: digits | '0' :: 'B' :: digits => (.binary, digits)
  | digits => (.decimal, digits)

def magnitude? (numeral : List Char) : Option Nat :=
  let (radix, digits) := radixAndDigits numeral
  (radix.read? digits).filter (· < magnitudeLimit)

def read? : List Char → Option Int
  | '-' :: numeral => (magnitude? numeral).map fun magnitude => -(magnitude : Int)
  | numeral => (magnitude? numeral).map fun magnitude => (magnitude : Int)

end Literal

end Breadboard

import Breadboard.Isa.Mnemonic

/-!
# Arithmetic, logic and flags

Every operation of the arithmetic unit replaces all three flags. Carry is the carry out
of an addition or the borrow out of a subtraction, and logic clears it.
-/

namespace Breadboard

structure Flags where
  zero : Bool := false
  carry : Bool := false
  /-- Bit seven of the result, also of a logical one. -/
  negative : Bool := false
deriving DecidableEq, Repr

namespace Flags

def ofResult (result : UInt8) (carry : Bool) : Flags where
  zero := result == 0
  carry := carry
  negative := result &&& 0x80 != 0

/-- A letter for each flag that is set and a dash for each that is clear. -/
def text (flags : Flags) : String :=
  (if flags.zero then "Z" else "-") ++ (if flags.carry then "C" else "-") ++
    (if flags.negative then "N" else "-")

end Flags

namespace Condition

/-- Whether a jump with this condition is taken. After a comparison, `notGreater` and
`less` go by the sign of the difference. -/
def holds (flags : Flags) : Condition → Bool
  | always => true
  | zero | equal => flags.zero
  | notZero => !flags.zero
  | carry => flags.carry
  | notGreater => flags.zero || flags.negative
  | less => flags.negative && !flags.zero

end Condition

def Mnemonic.jumps (flags : Flags) : Mnemonic → Bool
  | .jump condition => condition.holds flags
  | _ => false

structure AluResult where
  value : UInt8
  flags : Flags
deriving DecidableEq, Repr

/-- The result of an addition or a subtraction. -/
structure CarryResult extends AluResult where
  /-- The carry out of an addition, the borrow out of a subtraction. -/
  carryOut : Bool
deriving DecidableEq, Repr

namespace Alu

def result (value : UInt8) (carry : Bool) : AluResult :=
  ⟨value, Flags.ofResult value carry⟩

/-- The sum of two bytes and a carry in; it carries out from 256 on. -/
def add (left right : UInt8) (carryIn : Bool) : CarryResult :=
  let sum := left.toNat + right.toNat + carryIn.toNat
  let carryOut : Bool := 255 < sum
  ⟨result (UInt8.ofNat sum) carryOut, carryOut⟩

/-- The left byte less the right one and a borrow in. It borrows out if the true
difference is negative. -/
def subtract (left right : UInt8) (borrowIn : Bool) : CarryResult :=
  let difference : Int := left.toNat - right.toNat - borrowIn.toNat
  let borrowOut : Bool := difference < 0
  ⟨result (UInt8.ofInt difference) borrowOut, borrowOut⟩

def increment (value : UInt8) : AluResult := (add value 1 false).toAluResult

def decrement (value : UInt8) : AluResult := (subtract value 1 false).toAluResult

def and (left right : UInt8) : AluResult := result (left &&& right) false

def or (left right : UInt8) : AluResult := result (left ||| right) false

def xor (left right : UInt8) : AluResult := result (left ^^^ right) false

def not (value : UInt8) : AluResult := result (~~~value) false

/-- The flags of a subtraction whose difference is dropped. -/
def compare (left right : UInt8) : Flags := (subtract left right false).flags

end Alu

end Breadboard

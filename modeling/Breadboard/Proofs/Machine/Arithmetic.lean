import Breadboard.Machine.Alu
import Breadboard.Proofs.Isa.Bytes

/-!
# The arithmetic unit in numbers

What the arithmetic unit does to bytes, said of the numbers that the bytes stand for:
results are remainders by 256, carries and borrows compare the true results with the
range of a byte, and the flags describe the number of the result.
-/

namespace Breadboard

/-- The flags of a result below 256. -/
def numericFlags (result : Nat) (carry : Bool) : Flags where
  zero := result = 0
  carry := carry
  negative := 128 ≤ result

namespace Flags

theorem ofResult_eq (result : UInt8) (carry : Bool) :
    ofResult result carry = numericFlags result.toNat carry := by
  have zero : (result == 0) = decide (result.toNat = 0) := by
    rw [Bool.eq_iff_iff, beq_iff_eq, decide_eq_true_iff, ← UInt8.toNat_inj, UInt8.toNat_zero]
  rw [ofResult, numericFlags, highBit_eq, zero]

end Flags

namespace Alu

/-- A result with the flags that its number has. -/
def numeric (result : Nat) (carry : Bool) : AluResult :=
  ⟨UInt8.ofNat result, numericFlags result carry⟩

/-- The same with the carry out, which the flags show too. -/
def numericCarry (result : Nat) (carry : Bool) : CarryResult :=
  ⟨numeric result carry, carry⟩

theorem result_eq_numeric (value : UInt8) (carry : Bool) :
    result value carry = numeric value.toNat carry := by
  rw [result, numeric, Flags.ofResult_eq, UInt8.ofNat_toNat]

theorem add_eq_numeric (left right : UInt8) (carryIn : Bool) :
    add left right carryIn =
      numericCarry ((left.toNat + right.toNat + carryIn.toNat) % 256)
        (decide (256 ≤ left.toNat + right.toNat + carryIn.toNat)) := by
  rw [add, result_eq_numeric, UInt8.toNat_ofNat']
  rfl

/-- A difference of two bytes and a borrow is taken up by 256 if it is negative. -/
theorem subtract_eq_numeric (left right : UInt8) (borrowIn : Bool) :
    subtract left right borrowIn =
      numericCarry ((left.toNat + 512 - right.toNat - borrowIn.toNat) % 256)
        (decide (left.toNat < right.toNat + borrowIn.toNat)) := by
  have leftBound := left.toNat_lt
  have rightBound := right.toNat_lt
  have borrowBound : borrowIn.toNat ≤ 1 := Bool.toNat_le borrowIn
  have borrowOut : decide ((left.toNat - right.toNat - borrowIn.toNat : Int) < 0) =
      decide (left.toNat < right.toNat + borrowIn.toNat) := by
    rw [decide_eq_decide]
    omega
  rw [subtract, result_eq_numeric, numericCarry, borrowOut]
  congr 2
  rw [toNat_byteOfInt]
  omega

theorem increment_eq_numeric (value : UInt8) :
    increment value = numeric ((value.toNat + 1) % 256) (decide (value.toNat = 255)) := by
  have bound := value.toNat_lt
  have carry : decide (256 ≤ value.toNat + 1) = decide (value.toNat = 255) := by
    rw [decide_eq_decide]
    omega
  rw [increment, add_eq_numeric, ← carry]
  rfl

theorem decrement_eq_numeric (value : UInt8) :
    decrement value = numeric ((value.toNat + 255) % 256) (decide (value.toNat = 0)) := by
  rw [decrement, subtract_eq_numeric]
  change numeric ((value.toNat + 512 - 1 - 0) % 256) (decide (value.toNat < 1 + 0)) = _
  congr 1
  · omega
  · rw [decide_eq_decide]
    omega

/-- Without a borrow in, the right byte is taken from the left one. -/
theorem subtract_false_eq_numeric (left right : UInt8) :
    subtract left right false =
      numericCarry ((left.toNat + 256 - right.toNat) % 256)
        (decide (left.toNat < right.toNat)) := by
  have bound := right.toNat_lt
  rw [subtract_eq_numeric]
  congr 1
  change (left.toNat + 512 - right.toNat - 0) % 256 = _
  omega

theorem not_eq_numeric (value : UInt8) : not value = numeric (255 - value.toNat) false := by
  rw [not, result_eq_numeric, UInt8.toNat_not]
  rfl

theorem and_eq_numeric (left right : UInt8) :
    and left right = numeric (left.toNat &&& right.toNat) false := by
  rw [and, result_eq_numeric, UInt8.toNat_and]

theorem or_eq_numeric (left right : UInt8) :
    or left right = numeric (left.toNat ||| right.toNat) false := by
  rw [or, result_eq_numeric, UInt8.toNat_or]

theorem xor_eq_numeric (left right : UInt8) :
    xor left right = numeric (left.toNat ^^^ right.toNat) false := by
  rw [xor, result_eq_numeric, UInt8.toNat_xor]

end Alu

end Breadboard

import Breadboard.Isa.Instruction

/-!
# Bytes as numbers

Masks and two's complement, said of the numbers that bytes stand for.
-/

namespace Breadboard

/-- A number is stored in a byte as its remainder, also if it is negative. -/
theorem toNat_byteOfInt (number : Int) : (UInt8.ofInt number).toNat = (number % 256).toNat := by
  have bounded : (number % 256).toNat < 2 ^ 8 := by omega
  rw [UInt8.ofInt, UInt8.toNat_ofNat']
  exact Nat.mod_eq_of_lt bounded

/-- Bit seven is set from 128 on. -/
theorem highBit_eq (byte : UInt8) : (byte &&& 0x80 != 0) = decide (128 ≤ byte.toNat) := by
  have everywhere : ∀ number < 256, (UInt8.ofNat number &&& 0x80 != 0) = decide (128 ≤ number) := by
    decide +kernel
  have here := everywhere byte.toNat byte.toNat_lt
  rw [UInt8.ofNat_toNat] at here
  exact here

/-- Masking a RAM address leaves its remainder by the size of RAM. -/
theorem toNat_ramAddress (byte : UInt8) : (ramAddress byte).toNat = byte.toNat % ramSize := by
  have mask : (0x0F : UInt8).toNat = 2 ^ 4 - 1 := rfl
  rw [ramAddress, UInt8.toNat_and, mask, Nat.and_two_pow_sub_one_eq_mod]
  rfl

theorem ramAddress_eq (byte : UInt8) : ramAddress byte = UInt8.ofNat (byte.toNat % ramSize) := by
  rw [← toNat_ramAddress, UInt8.ofNat_toNat]

theorem ramAddress_of_lt {byte : UInt8} (small : byte.toNat < ramSize) :
    ramAddress byte = byte := by
  rw [ramAddress_eq, Nat.mod_eq_of_lt small, UInt8.ofNat_toNat]

@[simp] theorem ramAddress_ramAddress (byte : UInt8) :
    ramAddress (ramAddress byte) = ramAddress byte := by
  apply ramAddress_of_lt
  rw [toNat_ramAddress]
  exact Nat.mod_lt _ (by decide)

end Breadboard

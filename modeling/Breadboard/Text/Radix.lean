/-!
# Numerals in base two, ten and sixteen

A numeral is written most significant digit first, in at least a given number of
digits, and read back by the same positional rule. `Radix.value_digits` says that
reading what was written gives the number back, whatever the width.
-/

namespace Breadboard

/-- The bases in which the toolchain reads and writes numbers. -/
inductive Radix where
  | binary
  | decimal
  | hexadecimal
deriving DecidableEq, Repr

namespace Radix

def base : Radix → Nat
  | binary => 2
  | decimal => 10
  | hexadecimal => 16

theorem two_le_base (radix : Radix) : 2 ≤ radix.base := by
  cases radix <;> decide

/-- The digits of a number, most significant first. There are at least `width` of
them, so a number that is too short is filled up with zeros. -/
def digits (radix : Radix) (width number : Nat) : List Nat :=
  if width = 0 ∧ number = 0 then []
  else radix.digits (width - 1) (number / radix.base) ++ [number % radix.base]
termination_by width + number
decreasing_by
  have := radix.two_le_base
  rcases Nat.eq_zero_or_pos number with rfl | positive
  · simp only [Nat.zero_div]
    omega
  · have := Nat.div_lt_self positive this
    omega

def value (radix : Radix) (digits : List Nat) : Nat :=
  digits.foldl (fun sum digit => sum * radix.base + digit) 0

/-- Writing a number and reading its digits gives the number back. -/
theorem value_digits (radix : Radix) (width number : Nat) :
    radix.value (radix.digits width number) = number := by
  fun_induction digits radix width number with
  | case1 width number h => simp [value, h.2]
  | case2 width number h ih =>
    simp only [value, List.foldl_append, List.foldl_cons, List.foldl_nil] at ih ⊢
    rw [ih, Nat.mul_comm]
    exact Nat.div_add_mod number radix.base

/-- Every digit that is written is below the base. -/
theorem lt_base_of_mem_digits (radix : Radix) (width number : Nat) :
    ∀ digit ∈ radix.digits width number, digit < radix.base := by
  fun_induction digits radix width number with
  | case1 => simp
  | case2 width number h ih =>
    intro digit member
    rcases List.mem_append.1 member with earlier | last
    · exact ih digit earlier
    · rw [List.mem_singleton.1 last]
      exact Nat.mod_lt _ (Nat.lt_of_lt_of_le Nat.zero_lt_two radix.two_le_base)

/-- The character of a digit; digits above nine are capital letters. -/
def digitChar (digit : Nat) : Char :=
  if digit < 10 then Char.ofNat ('0'.toNat + digit) else Char.ofNat ('A'.toNat + (digit - 10))

/-- The value of a digit character below the base. Letters count in either case. -/
def digitValue? (radix : Radix) (character : Char) : Option Nat :=
  let digit? :=
    if '0' ≤ character ∧ character ≤ '9' then some (character.toNat - '0'.toNat)
    else if 'A' ≤ character ∧ character ≤ 'F' then some (character.toNat - 'A'.toNat + 10)
    else if 'a' ≤ character ∧ character ≤ 'f' then some (character.toNat - 'a'.toNat + 10)
    else none
  digit?.filter (· < radix.base)

/-- The numeral of a number in at least `width` digits. -/
def write (radix : Radix) (width number : Nat) : String :=
  String.ofList ((radix.digits width number).map digitChar)

/-- A numeral consists of the characters of digits. -/
theorem forall_mem_write {holds : Char → Prop} (everyDigit : ∀ digit < 16, holds (digitChar digit))
    (radix : Radix) (width number : Nat) :
    ∀ character ∈ (radix.write width number).toList, holds character := by
  have few : radix.base ≤ 16 := by cases radix <;> decide
  rw [write, String.toList_ofList, List.forall_mem_map]
  intro digit member
  exact everyDigit digit
    (Nat.lt_of_lt_of_le (radix.lt_base_of_mem_digits width number digit member) few)

/-- Reads a numeral of one digit or more; every character has to be a digit. -/
def read? (radix : Radix) (numeral : List Char) : Option Nat :=
  if numeral.isEmpty then none else (numeral.mapM radix.digitValue?).map radix.value

end Radix

def decimal (number : Nat) : String :=
  Radix.decimal.write 1 number

/-- A number in decimal, with a minus sign if it is negative. -/
def signedDecimal (number : Int) : String :=
  if number < 0 then "-" ++ decimal number.natAbs else decimal number.natAbs

/-- A number in capital hexadecimal, in at least `width` digits. -/
def hex (width number : Nat) : String :=
  Radix.hexadecimal.write width number

def hexBytes (bytes : List UInt8) : String :=
  String.join (bytes.map fun byte => hex 2 byte.toNat ++ " ")

/-- A byte as two groups of four bits, `0100_0001`. -/
def bitGroups (byte : UInt8) : String :=
  Radix.binary.write 4 (byte >>> 4).toNat ++ "_" ++ Radix.binary.write 4 (byte &&& 0x0F).toNat

end Breadboard

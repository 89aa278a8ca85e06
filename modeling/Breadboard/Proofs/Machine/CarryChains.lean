import Breadboard.Proofs.Machine.Arithmetic
import Mathlib.Data.Nat.Digits.Defs
import Mathlib.Tactic.LinearCombination

/-!
# Arithmetic on numbers of several bytes

An addition or a subtraction of longer numbers is done byte by byte, from the least significant
one on, where the carry or borrow out of each byte goes into the next (`Alu.chain`). One byte at a
time nothing is lost, for what a byte cannot hold is in its carry (`Alu.Exact`). So nothing is lost
of the whole numbers either, and a sum is undone by a subtraction (`carry_chains`).
-/

namespace Breadboard

/-- The number whose bytes are given, the least significant one first. -/
def littleEndian (bytes : List UInt8) : Nat :=
  Nat.ofDigits 256 (bytes.map UInt8.toNat)

theorem littleEndian_nil : littleEndian [] = 0 := rfl

theorem littleEndian_cons (byte : UInt8) (bytes : List UInt8) :
    littleEndian (byte :: bytes) = byte.toNat + 256 * littleEndian bytes := by
  rw [littleEndian, List.map_cons, Nat.ofDigits_cons]
  rfl

namespace Alu

/-- What a series of calls leaves. -/
structure Chained where
  /-- The bytes of the result, the least significant one first. -/
  bytes : List UInt8
  carry : Bool
  flags : Flags
deriving DecidableEq, Repr

/-- Applies an operation to the bytes of two numbers from the least significant ones on. The carry
out of each call is the carry into the next, and each call replaces the flags. -/
def chain (operation : UInt8 → UInt8 → Bool → CarryResult) (flags : Flags) (carry : Bool) :
    List UInt8 → List UInt8 → Chained
  | left :: lefts, right :: rights =>
    let result := operation left right carry
    let higher := chain operation result.flags result.carryOut lefts rights
    { higher with bytes := result.value :: higher.bytes }
  | [], _ | _ :: _, [] => ⟨[], carry, flags⟩

/-- The operation adds the right byte and the carry, or takes them away if the sign is negative,
and what the result cannot hold is in the carry out. -/
def Exact (sign : Int) (operation : UInt8 → UInt8 → Bool → CarryResult) : Prop :=
  ∀ left right carry,
    let result := operation left right carry
    (result.value.toNat : Int) + sign * (256 * result.carryOut.toNat) =
      left.toNat + sign * (right.toNat + carry.toNat)

theorem exact_add : Exact 1 add := by
  intro left right carry
  have leftBound := left.toNat_lt
  have rightBound := right.toNat_lt
  have carryBound : carry.toNat ≤ 1 := Bool.toNat_le carry
  simp only [add_eq_numeric, numericCarry, numeric, UInt8.toNat_ofNat']
  rcases Nat.lt_or_ge (left.toNat + right.toNat + carry.toNat) 256 with small | large
  · rw [decide_eq_false (Nat.not_le.mpr small), Bool.toNat_false]
    omega
  · rw [decide_eq_true large, Bool.toNat_true]
    omega

theorem exact_subtract : Exact (-1) subtract := by
  intro left right borrow
  have leftBound := left.toNat_lt
  have rightBound := right.toNat_lt
  have borrowBound : borrow.toNat ≤ 1 := Bool.toNat_le borrow
  simp only [subtract_eq_numeric, numericCarry, numeric, UInt8.toNat_ofNat']
  rcases Nat.lt_or_ge left.toNat (right.toNat + borrow.toNat) with below | above
  · rw [decide_eq_true below, Bool.toNat_true]
    omega
  · rw [decide_eq_false (Nat.not_lt.mpr above), Bool.toNat_false]
    omega

section

variable {operation : UInt8 → UInt8 → Bool → CarryResult} (before : Flags) (carry : Bool)
  {left right : List UInt8}

theorem length_bytes_chain (sameLength : left.length = right.length) :
    (chain operation before carry left right).bytes.length = left.length := by
  induction left generalizing right before carry with
  | nil => rfl
  | cons first lefts ih =>
    cases right with
    | nil => cases sameLength
    | cons second rights => exact congrArg (· + 1) (ih _ _ (Nat.succ.inj sameLength))

/-- **Calls that are exact one by one are exact together.** -/
theorem littleEndian_chain {sign : Int} (exact : Exact sign operation)
    (sameLength : left.length = right.length) :
    let result := chain operation before carry left right
    (littleEndian result.bytes : Int) + sign * (256 ^ left.length * result.carry.toNat) =
      littleEndian left + sign * (littleEndian right + carry.toNat) := by
  induction left generalizing right before carry with
  | nil =>
    obtain rfl := List.length_eq_zero_iff.mp sameLength.symm
    simp only [chain, littleEndian_nil, List.length_nil, pow_zero, one_mul]
    push_cast
    ring
  | cons first lefts ih =>
    cases right with
    | nil => cases sameLength
    | cons second rights =>
      have here := exact first second carry
      have above := ih (operation first second carry).flags
        (operation first second carry).carryOut (Nat.succ.inj sameLength)
      simp only [chain, littleEndian_cons, List.length_cons, pow_succ] at here above ⊢
      push_cast
      linear_combination here + 256 * above

/-- The flags are those of the last call. -/
theorem exists_flags_chain
    (describes : ∀ left right carry, let result := operation left right carry
      result.flags = Flags.ofResult result.value result.carryOut)
    (sameLength : left.length = right.length) (someByte : left ≠ []) :
    let result := chain operation before carry left right
    ∃ last, result.bytes.getLast? = some last ∧
      result.flags = Flags.ofResult last result.carry := by
  induction left generalizing right before carry with
  | nil => exact absurd rfl someByte
  | cons first lefts ih =>
    cases right with
    | nil => cases sameLength
    | cons second rights =>
      have shorter := Nat.succ.inj sameLength
      cases lefts with
      | nil =>
        obtain rfl := List.length_eq_zero_iff.mp shorter.symm
        exact ⟨_, rfl, describes first second carry⟩
      | cons next lefts =>
        obtain ⟨last, ends, flags⟩ := ih (operation first second carry).flags
          (operation first second carry).carryOut shorter (List.cons_ne_nil next lefts)
        refine ⟨last, ?_, flags⟩
        rw [chain, List.getLast?_cons, ends]
        rfl

/-- Taking away a byte that was added gives back what was there, and borrows as much as was
carried. -/
theorem subtract_add (left right : UInt8) (carry : Bool) :
    let sum := add left right carry
    let back := subtract sum.value right carry
    back.value = left ∧ back.carryOut = sum.carryOut := by
  have leftBound := left.toNat_lt
  have rightBound := right.toNat_lt
  have carryBound : carry.toNat ≤ 1 := Bool.toNat_le carry
  simp only [add_eq_numeric, subtract_eq_numeric, numericCarry, numeric, UInt8.toNat_ofNat']
  constructor
  · rw [← UInt8.toNat_inj, UInt8.toNat_ofNat']
    omega
  · rw [decide_eq_decide]
    omega

/-- **A sum is undone** by taking the right number away again. -/
theorem chain_subtract_chain_add (sameLength : left.length = right.length) (between : Flags) :
    let sum := chain add before carry left right
    let back := chain subtract between carry sum.bytes right
    back.bytes = left ∧ back.carry = sum.carry := by
  induction left generalizing right before carry between with
  | nil =>
    obtain rfl := List.length_eq_zero_iff.mp sameLength.symm
    exact ⟨rfl, rfl⟩
  | cons first lefts ih =>
    cases right with
    | nil => cases sameLength
    | cons second rights =>
      obtain ⟨value, borrow⟩ := subtract_add first second carry
      obtain ⟨bytes, carryOut⟩ := ih (add first second carry).flags
        (add first second carry).carryOut (Nat.succ.inj sameLength)
        (subtract (add first second carry).value second carry).flags
      simp only [chain]
      rw [borrow, value, bytes]
      exact ⟨rfl, carryOut⟩

end

end Alu

/-- Flags that describe a byte and a carry. -/
structure Flags.Describe (flags : Flags) (byte : UInt8) (carry : Bool) : Prop where
  zero : flags.zero ↔ byte = 0
  carry : flags.carry = carry
  negative : flags.negative = byte.toNat.testBit 7

theorem Flags.describe_ofResult (byte : UInt8) (carry : Bool) :
    (ofResult byte carry).Describe byte carry := by
  have bound := byte.toNat_lt
  refine ⟨beq_iff_eq, rfl, ?_⟩
  rw [ofResult_eq, numericFlags, Nat.testBit_eq_decide_div_mod_eq, decide_eq_decide]
  omega

/-- **Chains of additions and subtractions are exact.** Adding two numbers of equally many bytes
byte by byte, where the carry out of each byte goes into the next one, gives the bytes of their
sum, and subtracting them gives the bytes of their difference. What these bytes cannot hold is in
the last carry. Taking the right number away from the sum, with the first carry as a borrow, gives
back the left number, and borrows exactly if the sum carried. If there is a byte at all, the flags
describe the last one and the last carry, whatever they were before. -/
theorem carry_chains (before : Flags) (carryIn : Bool) {left right : List UInt8}
    (sameLength : left.length = right.length) :
    let sum := Alu.chain Alu.add before carryIn left right
    let difference := Alu.chain Alu.subtract before carryIn left right
    (sum.bytes.length = left.length ∧
      littleEndian sum.bytes + 256 ^ left.length * sum.carry.toNat =
        littleEndian left + littleEndian right + carryIn.toNat) ∧
    (difference.bytes.length = left.length ∧
      (littleEndian difference.bytes : Int) - 256 ^ left.length * difference.carry.toNat =
        littleEndian left - littleEndian right - carryIn.toNat) ∧
    (∀ between,
      let back := Alu.chain Alu.subtract between carryIn sum.bytes right
      back.bytes = left ∧ back.carry = sum.carry) ∧
    (left ≠ [] →
      (∃ last, sum.bytes.getLast? = some last ∧ sum.flags.Describe last sum.carry) ∧
      ∃ last, difference.bytes.getLast? = some last ∧
        difference.flags.Describe last difference.carry) := by
  intro sum difference
  refine ⟨⟨Alu.length_bytes_chain before carryIn sameLength, ?_⟩,
    ⟨Alu.length_bytes_chain before carryIn sameLength, ?_⟩,
    Alu.chain_subtract_chain_add before carryIn sameLength, ?_⟩
  · have exact := Alu.littleEndian_chain before carryIn Alu.exact_add sameLength
    zify
    linear_combination exact
  · have exact := Alu.littleEndian_chain before carryIn Alu.exact_subtract sameLength
    linear_combination exact
  · intro someByte
    have describesSum (l r c) : let result := Alu.add l r c
        result.flags = Flags.ofResult result.value result.carryOut := rfl
    have describesDifference (l r c) : let result := Alu.subtract l r c
        result.flags = Flags.ofResult result.value result.carryOut := rfl
    obtain ⟨last, ends, flags⟩ :=
      Alu.exists_flags_chain before carryIn describesSum sameLength someByte
    obtain ⟨lastToo, endsToo, flagsToo⟩ :=
      Alu.exists_flags_chain before carryIn describesDifference sameLength someByte
    exact ⟨⟨last, ends, flags ▸ Flags.describe_ofResult last _⟩,
      lastToo, endsToo, flagsToo ▸ Flags.describe_ofResult lastToo _⟩

/-- The lower byte borrows from zero twice over, once for all that it takes away and once for what
it borrowed itself, and the sum of the two numbers carries. -/
theorem carry_chains_of_borrow_from_zero :
    let left : List UInt8 := [0x00, 0x80]
    let right : List UInt8 := [0xFF, 0x7F]
    let sum := Alu.chain Alu.add {} true left right
    let difference := Alu.chain Alu.subtract {} true left right
    left.length = right.length ∧ left ≠ [] ∧
      sum = ⟨[0, 0], true, { zero := true, carry := true }⟩ ∧
      littleEndian sum.bytes + 256 ^ 2 * 1 = littleEndian left + littleEndian right + 1 ∧
      difference = ⟨[0, 0], false, { zero := true }⟩ ∧
      (littleEndian difference.bytes : Int) - 256 ^ 2 * 0 =
        littleEndian left - littleEndian right - 1 ∧
      (Alu.chain Alu.subtract sum.flags true sum.bytes right).bytes = left ∧
      ∃ last, sum.bytes.getLast? = some last ∧ sum.flags.Describe last true := by
  intro left right sum difference
  have sameLength : left.length = right.length := rfl
  have someByte : left ≠ [] := List.cons_ne_nil _ _
  obtain ⟨⟨_, added⟩, ⟨_, taken⟩, undone, described⟩ := carry_chains {} true sameLength
  exact ⟨sameLength, someByte, by decide, added, by decide, taken, (undone sum.flags).1,
    (described someByte).1⟩

end Breadboard

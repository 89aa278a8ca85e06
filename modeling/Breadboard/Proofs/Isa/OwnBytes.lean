import Breadboard.Proofs.Isa.Reencoding
import Mathlib.Data.List.GetD

/-!
# The bytes that are read with an opcode

How many of the bytes behind an opcode belong to it is decided by the opcode and the width of
addresses alone. Exactly these bytes are looked at (`Decoded.complete_eq_iff`). It makes no
difference how much of what follows them is handed over, and a byte that is missing is the same
as a zero (`opcode_read_with_own_bytes`).
-/

namespace Breadboard

/-- Zeros behind a list change nothing. -/
theorem getD_append_zeros (following : List UInt8) (count index : Nat) :
    (following ++ List.replicate count 0).getD index 0 = following.getD index 0 := by
  rcases Nat.lt_or_ge index following.length with inside | behind
  · rw [List.getD_append _ _ _ _ inside]
  · rw [List.getD_append_right _ _ _ _ behind, List.getD_eq_default _ _ behind,
      List.getD_eq_getElem?_getD, List.getElem?_getD_replicate_default_eq]

/-- A jump target is made of the bytes that belong to it, and all of them matter. -/
theorem AddressMode.readTarget_eq_iff (mode : AddressMode) (left right : List UInt8) :
    mode.readTarget left = mode.readTarget right ↔
      ∀ index < mode.jumpSize - 1, left.getD index 0 = right.getD index 0 := by
  cases mode with
  | eightBit =>
    change (left.getD 0 0).toUInt16 = (right.getD 0 0).toUInt16 ↔
      ∀ index < 1, left.getD index 0 = right.getD index 0
    rw [UInt8.toUInt16_inj]
    simp only [Nat.lt_one_iff, forall_eq]
  | elevenBit =>
    change _ ↔ ∀ index < 2, left.getD index 0 = right.getD index 0
    have lowBound := (left.getD 1 0).toNat_lt
    have otherLowBound := (right.getD 1 0).toNat_lt
    rw [← UInt16.toNat_inj, toNat_readTarget_elevenBit, toNat_readTarget_elevenBit]
    constructor
    · intro same index inside
      apply UInt8.toNat.inj
      obtain rfl | rfl : index = 0 ∨ index = 1 := by omega
      · omega
      · omega
    · intro same
      rw [same 0 Nat.two_pos, same 1 Nat.one_lt_two]

namespace Decoded

/-- What is looked at of a byte behind an opcode: all of it, or its lower half if it names a cell
of RAM. -/
def visible (decoded : Decoded) (byte : UInt8) : UInt8 :=
  if decoded.namesCell then ramAddress byte else byte

variable (mode : AddressMode) (opcode : UInt8)

/-- **The bytes that belong to an opcode are looked at, and no others.** Where one is missing,
there is a zero. -/
theorem complete_eq_iff (decoded : Decoded) (left right : List UInt8) :
    decoded.complete mode left = decoded.complete mode right ↔
      ∀ index < decoded.size mode - 1,
        decoded.visible (left.getD index 0) = decoded.visible (right.getD index 0) := by
  cases decoded with
  | unknown byte => exact iff_of_true rfl fun _ inside => absurd inside (Nat.not_lt_zero _)
  | known instruction =>
    rw [complete, complete, known.injEq]
    cases instruction with
    | bare | unary | pair =>
      exact iff_of_true rfl fun _ inside => absurd inside (Nat.not_lt_zero _)
    | immediate op register constant =>
      change Instruction.immediate op register (left.getD 0 0) =
        .immediate op register (right.getD 0 0) ↔
          ∀ index < 1, left.getD index 0 = right.getD index 0
      simp only [Instruction.immediate.injEq, true_and, Nat.lt_one_iff, forall_eq]
    | memory op register address =>
      change Instruction.memory op register (ramAddress (left.getD 0 0)) =
        .memory op register (ramAddress (right.getD 0 0)) ↔
          ∀ index < 1, ramAddress (left.getD index 0) = ramAddress (right.getD index 0)
      simp only [Instruction.memory.injEq, true_and, Nat.lt_one_iff, forall_eq]
    | jump condition target =>
      rw [Instruction.withPayload, Instruction.withPayload, Instruction.jump.injEq]
      exact (and_iff_right rfl).trans (mode.readTarget_eq_iff left right)

/-- Bytes behind an instruction can be handed over with it. -/
theorem ofBytes_eq_complete (following : List UInt8) :
    ofBytes mode opcode following = (ofOpcode opcode).complete mode following := by
  rw [ofBytes, complete_eq_iff]
  intro index inside
  rw [List.getD_eq_getElem?_getD, List.getElem?_take_of_lt inside, List.getD_eq_getElem?_getD]

/-- When two lists with the same opcode in front are read alike. -/
theorem atFront?_eq_iff (left right : List UInt8) :
    atFront? mode (opcode :: left) = atFront? mode (opcode :: right) ↔
      ∀ index < (ofOpcode opcode).size mode - 1,
        (ofOpcode opcode).visible (left.getD index 0) =
          (ofOpcode opcode).visible (right.getD index 0) := by
  rw [atFront?, atFront?, Option.some_inj, ofBytes_eq_complete, ofBytes_eq_complete,
    complete_eq_iff]

/-- Lists that agree on the bytes of an instruction are read alike. -/
theorem atFront?_of_take {other following : List UInt8}
    (same : other.take ((ofOpcode opcode).size mode) =
      (opcode :: following).take ((ofOpcode opcode).size mode)) :
    atFront? mode other = atFront? mode (opcode :: following) := by
  obtain ⟨count, counted⟩ := Nat.exists_eq_add_of_lt ((ofOpcode opcode).size_pos mode)
  rw [Nat.zero_add] at counted
  rw [counted] at same
  cases other with
  | nil => cases same
  | cons first rest =>
    rw [List.take_succ_cons, List.take_succ_cons] at same
    obtain ⟨rfl, sameRest⟩ := List.cons.inj same
    rw [atFront?_eq_iff, counted, Nat.add_sub_cancel]
    intro index inside
    rw [List.getD_eq_getElem?_getD, List.getD_eq_getElem?_getD,
      ← List.getElem?_take_of_lt inside, sameRest, List.getElem?_take_of_lt inside]

end Decoded

/-- **An opcode is read with its own bytes.** It makes no difference whether all of the bytes
behind it are handed over or only those that belong to it: lists that agree on these are read
alike, a missing byte is a zero, and what was read has the size that the opcode alone says. Of
each byte that belongs to the opcode everything counts, but for the upper half of a RAM
address. -/
theorem opcode_read_with_own_bytes (mode : AddressMode) (opcode : UInt8) (following : List UInt8) :
    let bytes := opcode :: following
    let front := Decoded.ofOpcode opcode
    let size := front.size mode
    Decoded.atFront? mode bytes = some (front.complete mode following) ∧
    (∀ other : List UInt8, other.take size = bytes.take size →
      Decoded.atFront? mode other = Decoded.atFront? mode bytes) ∧
    (∀ count, Decoded.atFront? mode (bytes ++ List.replicate count 0) =
      Decoded.atFront? mode bytes) ∧
    (∀ payload, (front.complete mode payload).size mode = size) ∧
    ∀ other, Decoded.atFront? mode (opcode :: other) = Decoded.atFront? mode bytes ↔
      ∀ index < size - 1,
        front.visible (other.getD index 0) = front.visible (following.getD index 0) := by
  intro bytes front size
  refine ⟨congrArg some (Decoded.ofBytes_eq_complete mode opcode following), ?_, ?_, ?_, ?_⟩
  · exact fun other => Decoded.atFront?_of_take mode opcode
  · intro count
    rw [List.cons_append, Decoded.atFront?_eq_iff]
    intro index _
    rw [getD_append_zeros]
  · exact fun payload => Decoded.size_complete mode payload front
  · exact fun other => Decoded.atFront?_eq_iff mode opcode other following

/-- A jump whose low target byte is missing, and one with a byte behind it. -/
theorem opcode_read_with_own_bytes_of_cut_off_jump :
    Decoded.atFront? .elevenBit ([0x15, 0x08] ++ List.replicate 5 0) =
      some (.known (.jump .zero 0x0800)) ∧
    [(0x15 : UInt8), 0x03, 0x41, 0x99].take 3 = [(0x15 : UInt8), 0x03, 0x41].take 3 ∧
    Decoded.atFront? .elevenBit [0x15, 0x03, 0x41, 0x99] = some (.known (.jump .zero 0x0341)) ∧
    Decoded.atFront? .eightBit [0x15, 0x03, 0x41] = Decoded.atFront? .eightBit [0x15, 0x03] := by
  obtain ⟨_, _, zeros, _, _⟩ := opcode_read_with_own_bytes .elevenBit 0x15 [0x08]
  obtain ⟨whole, alike, _, _, _⟩ := opcode_read_with_own_bytes .elevenBit 0x15 [0x03, 0x41]
  obtain ⟨_, alikeNarrow, _, _, _⟩ := opcode_read_with_own_bytes .eightBit 0x15 [0x03]
  refine ⟨(zeros 5).trans (by decide), by decide, ?_, alikeNarrow _ (by decide)⟩
  rw [alike _ (by decide), whole]
  decide

end Breadboard

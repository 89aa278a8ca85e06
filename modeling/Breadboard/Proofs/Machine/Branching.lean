import Breadboard.Proofs.Machine.Step

/-!
# Compare and branch

A comparison leaves nothing but flags, and a jump reads nothing but flags. What a condition says
of the flags of a comparison is a relation between the two bytes that were compared
(`Condition.holds_compare`), so a comparison with a jump behind it decides this relation
(`compare_and_branch`). `JML` and `JNG` take the sign of the difference as it stands in eight bits.
It is that of the true difference as long as this one fits into eight bits
(`Condition.relates_iff_signed`).
-/

namespace Breadboard

namespace Condition

/-- The relation between two compared bytes that a condition stands for. -/
def Relates (left right : UInt8) : Condition → Prop
  | always => True
  | zero | equal => left = right
  | notZero => left ≠ right
  | carry => left.toNat < right.toNat
  | notGreater => 128 ≤ ((left.toNat : Int) - right.toNat) % 256 ∨ left = right
  | less => 128 ≤ ((left.toNat : Int) - right.toNat) % 256

instance (left right : UInt8) (condition : Condition) : Decidable (condition.Relates left right) :=
  match condition with
  | always => inferInstanceAs (Decidable True)
  | zero | equal => inferInstanceAs (Decidable (left = right))
  | notZero => inferInstanceAs (Decidable (left ≠ right))
  | carry => inferInstanceAs (Decidable (left.toNat < right.toNat))
  | notGreater =>
    inferInstanceAs (Decidable (128 ≤ ((left.toNat : Int) - right.toNat) % 256 ∨ left = right))
  | less => inferInstanceAs (Decidable (128 ≤ ((left.toNat : Int) - right.toNat) % 256))

/-- **The flags of a comparison decide the relation.** -/
theorem holds_compare (left right : UInt8) (condition : Condition) :
    condition.holds (Alu.compare left right) = true ↔ condition.Relates left right := by
  have leftBound := left.toNat_lt
  have rightBound := right.toNat_lt
  have zero : (left.toNat + 256 - right.toNat) % 256 = 0 ↔ left = right := by
    rw [← UInt8.toNat_inj]
    omega
  have sign : 128 ≤ (left.toNat + 256 - right.toNat) % 256 ↔
      128 ≤ ((left.toNat : Int) - right.toNat) % 256 := by omega
  rw [Alu.compare, Alu.subtract_false_eq_numeric, Alu.numericCarry, Alu.numeric, numericFlags]
  cases condition with
  | always => exact iff_of_true rfl trivial
  | zero | equal => rw [holds, Relates, decide_eq_true_iff, zero]
  | notZero => rw [holds, Relates, Bool.not_eq_true', decide_eq_false_iff_not, zero]
  | carry => rw [holds, Relates, decide_eq_true_iff]
  | notGreater =>
    rw [holds, Relates, Bool.or_eq_true, decide_eq_true_iff, decide_eq_true_iff, zero, sign,
      or_comm]
  | less =>
    -- A difference of zero has no sign, so the second half of the condition never decides.
    rw [holds, Relates, Bool.and_eq_true, Bool.not_eq_true', decide_eq_true_iff,
      decide_eq_false_iff_not, ← sign]
    omega

theorem toInt_toInt8 (byte : UInt8) :
    byte.toInt8.toInt = if byte.toNat < 128 then (byte.toNat : Int) else byte.toNat - 256 := by
  rw [← Int8.toInt_toBitVec, UInt8.toBitVec_toInt8, BitVec.toInt_eq_toNat_cond,
    UInt8.toNat_toBitVec]
  split <;> split <;> omega

/-- **The sign of a difference that fits into eight bits.** -/
theorem relates_iff_signed {left right : UInt8}
    (lower : -128 ≤ left.toInt8.toInt - right.toInt8.toInt)
    (upper : left.toInt8.toInt - right.toInt8.toInt ≤ 127) :
    (less.Relates left right ↔ left.toInt8 < right.toInt8) ∧
      (notGreater.Relates left right ↔ left.toInt8 ≤ right.toInt8) := by
  have leftBound := left.toNat_lt
  have rightBound := right.toNat_lt
  rw [toInt_toInt8, toInt_toInt8] at lower upper
  rw [Relates, Relates, Int8.lt_iff_toInt_lt, Int8.le_iff_toInt_le, ← UInt8.toNat_inj,
    toInt_toInt8, toInt_toInt8]
  constructor <;> omega

end Condition

namespace Instruction

/-- The two bytes that an instruction compares, if that is what it does. -/
def compared? (registers : RegisterFile) : Instruction → Option (UInt8 × UInt8)
  | pair .cmp destination source => some (registers.read destination, registers.read source)
  | immediate .cmi register constant => some (registers.read register, constant)
  | _ => none

theorem inRange_of_compared? {mode : AddressMode} {registers : RegisterFile}
    {instruction : Instruction} {bytes : UInt8 × UInt8}
    (compares : instruction.compared? registers = some bytes) : instruction.InRange mode := by
  cases instruction with
  | bare | unary | pair | immediate => trivial
  | memory | jump => cases compares

/-- **A comparison** changes nothing but the flags, and execution goes on behind it. -/
theorem effect_of_compared? {state : MachineState} {instruction : Instruction}
    {left right : UInt8} (compares : instruction.compared? state.registers = some (left, right)) :
    Reference.effect instruction state = { state with flags := Alu.compare left right } ∧
      instruction.flow state.flags = .advance := by
  rw [Alu.compare, Alu.subtract_false_eq_numeric]
  cases instruction with
  | bare | unary | memory | jump => cases compares
  | pair op destination source =>
    cases op with
    | add | sub | mov | and | or | xor => cases compares
    | cmp =>
      cases compares
      exact ⟨rfl, rfl⟩
  | immediate op register constant =>
    cases op with
    | ldi => cases compares
    | cmi =>
      cases compares
      exact ⟨rfl, rfl⟩

end Instruction

namespace Cpu

/-- Registers, RAM and the display are the same. -/
structure SameData (first second : Cpu) : Prop where
  registers : first.state.registers = second.state.registers
  ram : first.state.ram = second.state.ram
  output : first.state.output = second.state.output
  outputEnabled : first.state.outputEnabled = second.state.outputEnabled

theorem SameData.trans {first second third : Cpu} (front : first.SameData second)
    (back : second.SameData third) : first.SameData third where
  registers := front.registers.trans back.registers
  ram := front.ram.trans back.ram
  output := front.output.trans back.output
  outputEnabled := front.outputEnabled.trans back.outputEnabled

variable {cpu : Cpu} {instruction : Instruction} {following : List UInt8}

/-- **A step that leaves nothing but flags.** The instruction stands in memory as a whole, so the
processor does not halt behind it. -/
theorem step_of_sets_flags {flags : Flags} (active : cpu.isHalted = false)
    (inRange : instruction.InRange cpu.mode)
    (bytes : cpu.rom.toList.drop cpu.state.programCounter.toNat =
      instruction.encode cpu.mode ++ following)
    (effect : Reference.effect instruction cpu.state = { cpu.state with flags := flags })
    (goesOn : ∀ op, instruction ≠ .bare op) :
    cpu.step.2.SameData cpu ∧ cpu.step.2.state.flags = flags ∧ cpu.step.2.isHalted = false ∧
      cpu.step.2.state.programCounter = Reference.goOn cpu.state
        (cpu.state.programCounter.toNat + instruction.size cpu.mode) instruction := by
  obtain ⟨step, _, inside, _⟩ := step_of_encode active inRange bytes
  rw [Reference.size_eq] at inside ⊢
  have running : ¬(instruction = .bare .hlt ∨
      2048 < cpu.state.programCounter.toNat + Reference.size cpu.mode instruction) := by
    rw [not_or]
    exact ⟨goesOn .hlt, Nat.not_lt.mpr inside⟩
  rw [step, handle_known_snd _ _ (goesOn .rst), Reference.advance, effect, if_neg running]
  exact ⟨⟨rfl, rfl, rfl, rfl⟩, rfl, rfl, rfl⟩

/-- **The step at a comparison.** It leaves the flags of the comparison and goes on behind it. -/
theorem step_of_compared? {left right : UInt8} (active : cpu.isHalted = false)
    (compares : instruction.compared? cpu.state.registers = some (left, right))
    (bytes : cpu.rom.toList.drop cpu.state.programCounter.toNat =
      instruction.encode cpu.mode ++ following) :
    cpu.step.1 = .executed instruction none false ∧ cpu.step.2.SameData cpu ∧
      cpu.step.2.state.flags = Alu.compare left right ∧ cpu.step.2.isHalted = false ∧
      cpu.step.2.state.programCounter.toNat =
        cpu.state.programCounter.toNat + instruction.size cpu.mode ∧
      cpu.step.2.rom.toList.drop cpu.step.2.state.programCounter.toNat = following := by
  obtain ⟨onlyFlags, advances⟩ := instruction.effect_of_compared? compares
  have fits : instruction.InRange cpu.mode := Instruction.inRange_of_compared? compares
  have goesOn : ∀ op, instruction ≠ .bare op := by
    intro op bare
    rw [bare] at compares
    cases compares
  obtain ⟨_, outcome, inside, next⟩ := step_of_encode active fits bytes
  obtain ⟨sameData, flags, stillActive, counter⟩ :=
    step_of_sets_flags active fits bytes onlyFlags goesOn
  rw [Instruction.jumpTarget?, advances] at outcome
  rw [Reference.goOn_eq, advances] at counter
  have behind : cpu.step.2.state.programCounter.toNat =
      cpu.state.programCounter.toNat + instruction.size cpu.mode := by
    rw [counter, toNat_ofNat_of_le_romSize inside]
  refine ⟨outcome, sameData, flags, stillActive, behind, ?_⟩
  rw [cpu.step_frame.2, behind, next]

/-- **The step at a jump.** The jump is taken if its condition holds of the flags, and otherwise
execution goes on behind it. -/
theorem step_of_jump {condition : Condition} {target : UInt16} (active : cpu.isHalted = false)
    (inRange : (Instruction.jump condition target).InRange cpu.mode)
    (bytes : cpu.rom.toList.drop cpu.state.programCounter.toNat =
      (Instruction.jump condition target).encode cpu.mode ++ following) :
    cpu.step.1 = .executed (.jump condition target)
        (if condition.holds cpu.state.flags then some target else none) false ∧
      cpu.step.2.SameData cpu ∧
      (condition.holds cpu.state.flags → cpu.step.2.state.programCounter = target) ∧
      (¬condition.holds cpu.state.flags → cpu.step.2.state.programCounter.toNat =
        cpu.state.programCounter.toNat + (Instruction.jump condition target).size cpu.mode) := by
  obtain ⟨_, outcome, inside, _⟩ := step_of_encode active inRange bytes
  obtain ⟨sameData, _, _, counter⟩ :=
    step_of_sets_flags active inRange bytes rfl (by rintro op ⟨⟩)
  rw [Instruction.jumpTarget?, Instruction.flow] at outcome
  rw [Reference.goOn_eq, Instruction.flow] at counter
  refine ⟨?_, sameData, ?_, ?_⟩
  · rw [outcome]
    cases condition.holds cpu.state.flags <;> rfl
  · intro holds
    rw [counter, if_pos holds]
  · intro fails
    rw [counter, if_neg fails]
    exact toNat_ofNat_of_le_romSize inside

end Cpu

/-- **Compare and branch.** A comparison in front of a jump decides the relation that the jump's
condition stands for. Both are executed as a whole and leave registers, RAM and the display
alone. If the compared bytes are related, the jump is taken, and execution goes on behind the jump
otherwise. The relations of `JML` and `JNG` are the signed ones as long as the signed difference
fits into a byte. -/
theorem compare_and_branch (cpu : Cpu) {comparison : Instruction} {condition : Condition}
    {target : UInt16} {left right : UInt8} {following : List UInt8}
    (active : cpu.isHalted = false)
    (compares : comparison.compared? cpu.state.registers = some (left, right))
    (inRange : (Instruction.jump condition target).InRange cpu.mode)
    (bytes : cpu.rom.toList.drop cpu.state.programCounter.toNat =
      comparison.encode cpu.mode ++
        ((Instruction.jump condition target).encode cpu.mode ++ following)) :
    let behind := cpu.state.programCounter.toNat + comparison.size cpu.mode +
      (Instruction.jump condition target).size cpu.mode
    let related := condition.Relates left right
    cpu.step.1 = .executed comparison none false ∧
      cpu.step.2.step.1 =
        .executed (.jump condition target) (if related then some target else none) false ∧
      (cpu.after 2).SameData cpu ∧
      (related → (cpu.after 2).state.programCounter = target) ∧
      (¬related → (cpu.after 2).state.programCounter.toNat = behind) ∧
      ((cpu.after 2).state.programCounter = target ↔ related ∨ target.toNat = behind) ∧
      (-128 ≤ left.toInt8.toInt - right.toInt8.toInt →
        left.toInt8.toInt - right.toInt8.toInt ≤ 127 →
        (Condition.less.Relates left right ↔ left.toInt8 < right.toInt8) ∧
        (Condition.notGreater.Relates left right ↔ left.toInt8 ≤ right.toInt8)) := by
  intro behind related
  have decides := condition.holds_compare left right
  obtain ⟨firstOutcome, firstData, flags, stillActive, atJump, jumpBytes⟩ :=
    Cpu.step_of_compared? active compares bytes
  have mode := cpu.step_frame.1
  rw [← mode] at inRange jumpBytes
  obtain ⟨secondOutcome, secondData, jumps, passes⟩ :=
    Cpu.step_of_jump stillActive inRange jumpBytes
  rw [flags] at secondOutcome jumps passes
  rw [mode, atJump] at passes
  have taken (holds : related) : (cpu.after 2).state.programCounter = target :=
    jumps (decides.mpr holds)
  have notTaken (fails : ¬related) : (cpu.after 2).state.programCounter.toNat = behind :=
    passes fun flag => fails (decides.mp flag)
  refine ⟨firstOutcome, ?_, secondData.trans firstData, taken, notTaken, ?_,
    Condition.relates_iff_signed⟩
  · rw [secondOutcome]
    simp only [decides, related]
  · by_cases holds : related
    · exact iff_of_true (taken holds) (.inl holds)
    · -- The address behind the jump may be its target, which is reached either way.
      rw [or_iff_right holds, ← UInt16.toNat_inj, notTaken holds, eq_comm]

/-- The same two bytes are compared with and without signs, at the end of program memory and on
both widths of addresses. -/
theorem compare_and_branch_of_negative :
    let state : MachineState :=
      { programCounter := 2044, registers := { b := 0xFE, c := 5 }, output := 7
        outputEnabled := true }
    let signed : Cpu :=
      { mode := .elevenBit
        rom := Rom.blank.overwrite [0x9B, 0x65, 0x00, 0x09] 2044 (by decide)
        state := state }
    let unsigned : Cpu :=
      { mode := .eightBit
        rom := Rom.blank.overwrite [0x4C, 0x05, 0x35, 0x09] 2044 (by decide)
        state := state }
    let jml := Instruction.jump .less 9
    let jmc := Instruction.jump .carry 9
    (signed.isHalted = false ∧
      (Instruction.pair .cmp .b .c).compared? signed.state.registers = some (0xFE, 5) ∧
      jml.InRange signed.mode ∧
      signed.rom.toList.drop signed.state.programCounter.toNat =
        (Instruction.pair .cmp .b .c).encode signed.mode ++ (jml.encode signed.mode ++ []) ∧
      (signed.after 2).state.programCounter = 9 ∧
      (signed.after 2).state.output = 7 ∧ (signed.after 2).state.outputEnabled = true ∧
      (0xFE : UInt8).toInt8 < (5 : UInt8).toInt8) ∧
    (unsigned.isHalted = false ∧
      (Instruction.immediate .cmi .b 5).compared? unsigned.state.registers = some (0xFE, 5) ∧
      jmc.InRange unsigned.mode ∧
      unsigned.rom.toList.drop unsigned.state.programCounter.toNat =
        (Instruction.immediate .cmi .b 5).encode unsigned.mode ++
          (jmc.encode unsigned.mode ++ []) ∧
      (unsigned.after 2).state.programCounter.toNat = 2048) := by
  intro state signed unsigned jml jmc
  have signedRange : jml.InRange signed.mode := by rintro ⟨⟩
  have unsignedRange : jmc.InRange unsigned.mode := fun _ => by decide
  have signedBytes : signed.rom.toList.drop signed.state.programCounter.toNat =
      (Instruction.pair .cmp .b .c).encode signed.mode ++ (jml.encode signed.mode ++ []) := by
    decide +kernel
  have unsignedBytes : unsigned.rom.toList.drop unsigned.state.programCounter.toNat =
      (Instruction.immediate .cmi .b 5).encode unsigned.mode ++
        (jmc.encode unsigned.mode ++ []) := by decide +kernel
  obtain ⟨_, _, sameData, taken, _, _, signs⟩ :=
    compare_and_branch signed rfl rfl signedRange signedBytes
  obtain ⟨_, _, _, _, notTaken, _⟩ :=
    compare_and_branch unsigned rfl rfl unsignedRange unsignedBytes
  obtain ⟨less, _⟩ := signs (by decide) (by decide)
  exact ⟨⟨rfl, rfl, signedRange, signedBytes, taken (by decide), sameData.output,
      sameData.outputEnabled, less.mp (by decide)⟩,
    rfl, rfl, unsignedRange, unsignedBytes, notTaken (by decide)⟩

end Breadboard
